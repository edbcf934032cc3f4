import LibFatbat.Memory.RmaAddress

/-!
# The buffers that ranks export

The buffers of the ranks of a job, of `length` bytes each, that the peers read from or write into.
A buffer is a handle cut out of a segment that its owner has registered; which segment, and where in
it, is up to the heap. The peers are sent the `rma_key_info` of the buffer, and compute remote
addresses from it.

With `FI_MR_VIRT_ADDR`, or with every buffer at the start of its segment, they reach the bytes of
the buffer: `target_keyInfo` and `permits_keyInfo`.
-/

namespace LibFatbat

/-- The buffers of the ranks, as the heap has cut them out of its segments. The names of the buffers
of a rank are of type `ι`. -/
structure ExportedBuffers (ι : Type) (length : ℕ) where
  /-- The domain attributes that the ranks have negotiated. -/
  attr : DomainAttr
  /-- The segment that a buffer is in. -/
  segment : ℕ → ι → MemorySegment
  /-- Its registration. -/
  mr : ℕ → ι → FidMr
  /-- Where in the segment the buffer begins. -/
  offset : ℕ → ι → BitVec 64
  /-- The registrations of a rank, by their keys. -/
  mrs : ℕ → BitVec 64 → Option FidMr
  registered : ∀ r x, (segment r x).Registered (mr r x)
  mrs_key : ∀ r x, mrs r (mr r x).key = some (mr r x)
  inside : ∀ r x, (offset r x).toNat + length ≤ (mr r x).iovLen.toNat

namespace ExportedBuffers

variable {ι : Type} {length : ℕ} (b : ExportedBuffers ι length) (r : ℕ) (x : ι)

/-- `handle()` of the pointer to a buffer. -/
def handle : MemoryRegion := (b.segment r x).getHandle (b.offset r x) (BitVec.ofNat 64 length)

/-- The `rma_key_info` of a buffer. -/
def keyInfo : RmaKeyInfo where
  address := (b.handle r x).getAddress
  remoteKey := (b.mr r x).key
  length := BitVec.ofNat 64 length

/-- The address of the first byte of a buffer. -/
def address : Address := (b.mr r x).iovBase + b.offset r x

/-- `remote_rma_addr_value`. -/
def remoteAddr (info : RmaKeyInfo) (offset : BitVec 64) : BitVec 64 :=
  remoteRmaAddrValue (some ⟨some b.attr⟩) info offset

/-- The byte of rank `r` that a remote address stands for. -/
def target (info : RmaKeyInfo) (remoteAddr : BitVec 64) : Option Address :=
  targetByte (b.mrs r) b.attr.mrMode info.remoteKey remoteAddr

/-- libfabric lets a peer of rank `r` reach `length` bytes from a remote address on: they are in the
region that the key names. -/
def Permits (info : RmaKeyInfo) (remoteAddr : BitVec 64) : Prop :=
  ∃ mr, b.mrs r info.remoteKey = some mr ∧ ∀ j < length, ∃ a,
    b.target r info (remoteAddr + BitVec.ofNat 64 j) = some a ∧
      (a - mr.iovBase).toNat < mr.iovLen.toNat

/-- The remote addresses are virtual ones, or every buffer begins where its segment does. -/
def Reached : Prop := b.attr.mrMode &&& fiMrVirtAddr ≠ 0#32 ∨ ∀ r x, b.offset r x = 0#64

variable {b r x}

theorem rmaKeyInfo_handle :
    (b.handle r x).rmaKeyInfo (BitVec.ofNat 64 length) = some (b.keyInfo r x) := by
  rw [handle, rmaKeyInfo_getHandle (b.registered r x), keyInfo, handle,
    MemorySegment.getAddress_getHandle, (b.registered r x).base_eq]

/-- Counting on from the address of offset 0 gives the address of an offset. -/
theorem remoteAddr_add (info : RmaKeyInfo) (o : BitVec 64) :
    b.remoteAddr info 0 + o = b.remoteAddr info o := by
  simp only [remoteAddr, remoteRmaAddrValue]
  split <;> simp

/-- A peer that computes the remote address of an offset reaches that byte of the buffer. -/
theorem target_keyInfo (h : b.Reached) (o : BitVec 64) :
    b.target r (b.keyInfo r x) (b.remoteAddr (b.keyInfo r x) o) = some (b.address r x + o) := by
  by_cases hmode : b.attr.mrMode &&& fiMrVirtAddr = 0#32
  · -- the address counts from the start of the segment, where the buffer begins
    have hoffset := h.resolve_left (not_not.mpr hmode) r x
    rw [target, remoteAddr, targetByte_of_relative (b.registered r x) (b.mrs_key r x)
      rmaKeyInfo_handle hmode, address, hoffset, BitVec.add_zero]
  · rw [target, remoteAddr, targetByte_of_virtAddr (b.registered r x) rmaKeyInfo_handle hmode,
      address]

/-- A byte of a buffer is counted from the start of the segment without wrapping around. -/
theorem toNat_address_sub {j : ℕ} (hj : j < length) :
    (b.address r x + BitVec.ofNat 64 j - (b.mr r x).iovBase).toNat = (b.offset r x).toNat + j := by
  have hinside := b.inside r x
  have hlt := (b.mr r x).iovLen.isLt
  have hsub : b.address r x + BitVec.ofNat 64 j - (b.mr r x).iovBase =
      b.offset r x + BitVec.ofNat 64 j := by
    rw [address, BitVec.add_assoc, BitVec.add_comm, BitVec.add_sub_cancel]
  rw [hsub, BitVec.toNat_add, BitVec.toNat_ofNat]
  omega

/-- libfabric lets a peer reach the whole buffer. -/
theorem permits_keyInfo (h : b.Reached) :
    b.Permits r (b.keyInfo r x) (b.remoteAddr (b.keyInfo r x) 0) := by
  refine ⟨b.mr r x, b.mrs_key r x, fun j hj => ⟨b.address r x + BitVec.ofNat 64 j, ?_, ?_⟩⟩
  · rw [remoteAddr_add, target_keyInfo h]
  · rw [toNat_address_sub hj]
    have hinside := b.inside r x
    omega

/-- Different bytes of a buffer have different addresses. -/
theorem address_add_inj {j k : ℕ} (hj : j < length) (hk : k < length)
    (h : b.address r x + BitVec.ofNat 64 j = b.address r x + BitVec.ofNat 64 k) : j = k := by
  have hsame := toNat_address_sub (b := b) (r := r) (x := x) hj
  rw [h, toNat_address_sub hk] at hsame
  omega

end ExportedBuffers

end LibFatbat
