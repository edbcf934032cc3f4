import Mathlib.Tactic
import LibFatbat.Endpoint.Model

/-!
# What the code reads from libfabric

The flags of completion queue entries and the return codes of posting functions, with the branches
that `poll_send_queue_default`, `poll_recv_queue_default`, `execute_fi_function` and
`write_data_delivery` take on them, and the conditions under which polling bypasses its locks.

`classifyTx_eq` and `classifyRx_eq` say that the branch taken is the right one whenever the flags
are those that libfabric documents for the kind of operation.
-/

namespace LibFatbat

/-- The four kinds of operation that have counters of their own. -/
inductive Kind
  | send
  | recv
  | read
  | write
  deriving DecidableEq

/-! ### Flags of completions -/

def fiMsg : BitVec 64 := .twoPow 64 1
def fiRma : BitVec 64 := .twoPow 64 2
def fiTagged : BitVec 64 := .twoPow 64 3
def fiRead : BitVec 64 := .twoPow 64 8
def fiWrite : BitVec 64 := .twoPow 64 9
def fiRecv : BitVec 64 := .twoPow 64 10
def fiSend : BitVec 64 := .twoPow 64 11
def fiRemoteRead : BitVec 64 := .twoPow 64 12
def fiRemoteWrite : BitVec 64 := .twoPow 64 13
def fiRemoteCqData : BitVec 64 := .twoPow 64 17
def fiDeliveryComplete : BitVec 64 := .twoPow 64 28

/-- The branches on the flags of a transmit completion; `none` terminates the program. -/
def classifyTx (flags : BitVec 64) : Option Kind :=
  if flags &&& (fiTagged ||| fiSend ||| fiMsg) ≠ 0#64 then some .send
  else if flags = fiRead ||| fiRma then some .read
  else if flags &&& (fiWrite ||| fiRma) = fiWrite ||| fiRma then some .write
  else none

/-- The branches on the flags of a receive completion: a tagged receive, data written by a remote
peer (`some none`), or termination. -/
def classifyRx (flags : BitVec 64) : Option (Option Kind) :=
  if flags &&& (fiTagged ||| fiRecv) ≠ 0#64 then some (some .recv)
  else if flags &&& (fiRma ||| fiRemoteWrite ||| fiRemoteCqData) ≠ 0#64 then some none
  else none

/-- The flags that libfabric documents for the completion of an operation. -/
def Kind.Documented (flags : BitVec 64) : Kind → Prop
  | .send => flags &&& fiSend = fiSend
  | .recv => flags &&& fiRecv = fiRecv
  | .read => flags = fiRead ||| fiRma
  | .write => flags &&& (fiWrite ||| fiRma) = fiWrite ||| fiRma ∧
      flags &&& (fiTagged ||| fiSend ||| fiMsg) = 0#64

/-- A flag that is set is set in a larger mask. -/
theorem and_mask_ne_zero {flags mask bit : BitVec 64} (hmask : mask &&& bit = bit)
    (hbit : bit ≠ 0#64) (h : flags &&& bit = bit) : flags &&& mask ≠ 0#64 := by
  intro hzero
  apply hbit
  rw [← h, ← hmask, ← BitVec.and_assoc, hzero, BitVec.zero_and]

/-- A transmit completion is counted for the kind of operation it is for. -/
theorem classifyTx_eq {kind : Kind} {flags : BitVec 64} (hkind : kind ≠ .recv)
    (h : kind.Documented flags) : classifyTx flags = some kind := by
  cases kind with
  | send => exact if_pos (and_mask_ne_zero (by decide) (by decide) h)
  | recv => exact absurd rfl hkind
  | read =>
    obtain rfl : flags = fiRead ||| fiRma := h
    decide
  | write =>
    obtain ⟨hwrite, hnot⟩ := h
    have hne : flags ≠ fiRead ||| fiRma := by
      rintro rfl
      exact absurd hwrite (by decide)
    rw [classifyTx, if_neg (not_not.mpr hnot), if_neg hne, if_pos hwrite]

/-- A receive completion is counted as one. -/
theorem classifyRx_eq {flags : BitVec 64} (h : Kind.recv.Documented flags) :
    classifyRx flags = some (some .recv) :=
  if_pos (and_mask_ne_zero (by decide) (by decide) h)

/-- The flags of a tagged send. -/
theorem documented_send : Kind.send.Documented (fiSend ||| fiTagged) := by
  unfold Kind.Documented
  decide

/-- The flags of a tagged receive. -/
theorem documented_recv : Kind.recv.Documented (fiRecv ||| fiTagged) := by
  unfold Kind.Documented
  decide

/-! ### Return codes of posting functions -/

def fiEnoent : ℤ := 2
def fiEagain : ℤ := 11
def fiEinval : ℤ := 22
def fiEnosys : ℤ := 38
def fiEnoprotoopt : ℤ := 92
def fiEopnotsupp : ℤ := 95
def fiEbadflags : ℤ := 260

/-- What a posting loop does with a return code. -/
inductive PostOutcome
  /-- Leave the loop: the operation is accepted. -/
  | accepted
  /-- Poll and post again. -/
  | poll
  /-- Give up on `FI_DELIVERY_COMPLETE`. -/
  | fallback
  | terminate
  | throw
  deriving DecidableEq

/-- The branches of `execute_fi_function`. -/
def executeFiFunction (ret : ℤ) : PostOutcome :=
  if ret = 0 then .accepted
  else if ret = -fiEagain then .poll
  else if ret = -fiEnoent then .terminate
  else .throw

/-- The branches on the return code of `fi_writemsg` in `write_data_delivery`. -/
def writemsgOutcome (ret : ℤ) : PostOutcome :=
  if ret = 0 then .accepted
  else if ret = -fiEagain then .poll
  else if ret = -fiEbadflags ∨ ret = -fiEopnotsupp ∨ ret = -fiEnoprotoopt ∨ ret = -fiEnosys ∨
      ret = -fiEinval then .fallback
  else if ret = -fiEnoent then .terminate
  else .throw

/-! ### Build and run configuration -/

/-- The provider that the library is built for. -/
inductive Provider
  | gni
  | cxi
  | lnx
  | other
  deriving DecidableEq

/-- `enum fi_threading`. -/
inductive FiThreading
  | unspec
  | safe
  | fid
  | domain
  | completion
  | endpoint
  deriving DecidableEq

/-- What the communicator depends on. -/
structure Setup where
  provider : Provider
  /-- `threadlevel_flags()` of the derived controller. -/
  threading : FiThreading
  endpointType : EndpointType
  /-- Whether `DISABLE_FI_INJECT` is defined. -/
  disableFiInject : Bool
  /-- `tx_inject_size_`. -/
  txInjectSize : ℕ
  /-- `max_completions_per_poll_`. -/
  maxCompletionsPerPoll : ℕ

namespace Setup

/-- `get_tx_inject_size`. -/
def getTxInjectSize (cfg : Setup) : ℕ := if cfg.disableFiInject then 0 else cfg.txInjectSize

/-- `bypass_tx_lock`. -/
def bypassTxLock (cfg : Setup) : Bool :=
  match cfg.provider with
  | .gni => true
  | .cxi => false
  | .lnx | .other => cfg.threading = .safe || cfg.endpointType = .threadlocalTx

/-- `bypass_rx_lock`. -/
def bypassRxLock (cfg : Setup) : Bool :=
  match cfg.provider with
  | .gni => true
  | .cxi | .lnx | .other => cfg.threading = .safe || cfg.endpointType = .scalableTxRx

end Setup

end LibFatbat
