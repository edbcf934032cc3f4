import LibFatbat.Memory.Region

/-!
# Remote addresses of RMA operations

The owner of a buffer exports a handle as an `RmaKeyInfo`; a peer turns it and an offset into
the remote address of a read or a write (`remote_rma_addr_value` in `test_utils.hpp`). What
that address means depends on the address mode the provider negotiated: with `FI_MR_VIRT_ADDR`
it is a virtual address of the owner, without it an offset from the start of the memory region
that the remote key names.

`targetByte` is that meaning. The main result, `targetByte_remoteRmaAddrValue_iff`, says when
the address a peer computes reaches the byte of the owner's handle it was meant for.
-/

namespace LibFatbat

/-- `FI_MR_VIRT_ADDR` of `rdma/fi_domain.h`. -/
def fiMrVirtAddr : BitVec 32 := 1 <<< 4

/-- The part of `struct fi_domain_attr` read here. -/
structure DomainAttr where
  /-- The negotiated memory registration mode bits. -/
  mrMode : BitVec 32
  deriving DecidableEq, Repr

/-- The part of `struct fi_info` read here. The domain attributes may be null. -/
structure FabricInfo where
  /-- `domain_attr`. -/
  domainAttr : Option DomainAttr
  deriving DecidableEq, Repr

/-- `use_relative_remote_addr`: whether the provider expects offsets into the memory region for
remote addresses. -/
def useRelativeRemoteAddr (fabricInfo : Option FabricInfo) : Bool :=
  match fabricInfo with
  | none => false
  | some info =>
    match info.domainAttr with
    | none => false
    | some attr => attr.mrMode &&& fiMrVirtAddr == 0

/-- What a rank tells its peers about a buffer, `struct rma_key_info`. -/
structure RmaKeyInfo where
  /-- The virtual address of the buffer. -/
  address : Address
  /-- The key of the memory region that covers the buffer. -/
  remoteKey : BitVec 64
  /-- The length of the buffer in bytes. -/
  length : BitVec 64
  deriving DecidableEq, Repr

/-- The key record of a handle, as every user of RMA fills it in: the address and the remote key
of the handle and the number of bytes asked for. -/
def MemoryRegion.rmaKeyInfo (r : MemoryRegion) (length : BitVec 64) : Option RmaKeyInfo :=
  r.getRemoteKey.map fun key => { address := r.getAddress, remoteKey := key, length }

/-- `remote_rma_addr_value`. -/
def remoteRmaAddrValue (fabricInfo : Option FabricInfo) (keyInfo : RmaKeyInfo)
    (offset : BitVec 64) : BitVec 64 :=
  if useRelativeRemoteAddr fabricInfo then offset else keyInfo.address + offset

/-- The byte of the owner that a remote address stands for under the mode bits `mrMode`, where
`mrs` are the owner's registrations by key: the address itself if it is virtual, and otherwise
an offset from the start of the region that the key names. -/
def targetByte (mrs : BitVec 64 → Option FidMr) (mrMode : BitVec 32) (remoteKey : BitVec 64)
    (remoteAddr : BitVec 64) : Option Address :=
  if mrMode &&& fiMrVirtAddr == 0 then (mrs remoteKey).map (·.iovBase + remoteAddr)
  else some remoteAddr

section Negotiated

variable {mrs : BitVec 64 → Option FidMr} {seg : MemorySegment} {mr : FidMr}
  {attr : DomainAttr} {off size length o : BitVec 64} {info : RmaKeyInfo}

/-- A handle of a registered segment exports its address and the key of the segment. -/
theorem rmaKeyInfo_getHandle (hreg : seg.Registered mr) :
    (seg.getHandle off size).rmaKeyInfo length =
      some { address := mr.iovBase + off, remoteKey := mr.key, length } := by
  simp [MemoryRegion.rmaKeyInfo, hreg.region_eq, hreg.base_eq]

/-- With virtual addresses the remote address is the address of the byte itself. -/
theorem targetByte_of_virtAddr (hreg : seg.Registered mr)
    (hinfo : (seg.getHandle off size).rmaKeyInfo length = some info)
    (hvirt : attr.mrMode &&& fiMrVirtAddr ≠ 0#32) :
    targetByte mrs attr.mrMode info.remoteKey
      (remoteRmaAddrValue (some ⟨some attr⟩) info o) = some (mr.iovBase + off + o) := by
  obtain rfl : _ = info := by simpa [rmaKeyInfo_getHandle hreg] using hinfo
  simp [targetByte, remoteRmaAddrValue, useRelativeRemoteAddr, hvirt]

/-- With relative addresses the remote address is counted from the start of the whole segment,
whatever the offset of the handle in it. -/
theorem targetByte_of_relative (hreg : seg.Registered mr) (hkey : mrs mr.key = some mr)
    (hinfo : (seg.getHandle off size).rmaKeyInfo length = some info)
    (hrel : attr.mrMode &&& fiMrVirtAddr = 0#32) :
    targetByte mrs attr.mrMode info.remoteKey
      (remoteRmaAddrValue (some ⟨some attr⟩) info o) = some (mr.iovBase + o) := by
  obtain rfl : _ = info := by simpa [rmaKeyInfo_getHandle hreg] using hinfo
  simp [targetByte, remoteRmaAddrValue, useRelativeRemoteAddr, hrel, hkey]

/-- The address a peer computes for offset `o` of a handle reaches byte `off + o` of the
registered segment exactly if addresses are virtual or the handle starts where the segment
does. -/
theorem targetByte_remoteRmaAddrValue_iff (hreg : seg.Registered mr)
    (hkey : mrs mr.key = some mr)
    (hinfo : (seg.getHandle off size).rmaKeyInfo length = some info) :
    targetByte mrs attr.mrMode info.remoteKey
        (remoteRmaAddrValue (some ⟨some attr⟩) info o) = some (mr.iovBase + off + o) ↔
      attr.mrMode &&& fiMrVirtAddr ≠ 0#32 ∨ off = 0#64 := by
  by_cases hmode : attr.mrMode &&& fiMrVirtAddr = 0#32
  · rw [targetByte_of_relative hreg hkey hinfo hmode]
    simp only [hmode, ne_eq, not_true_eq_false, false_or, Option.some.injEq]
    rw [BitVec.add_assoc, BitVec.add_right_inj]
    constructor
    · intro h
      simpa using h.symm
    · rintro rfl
      simp
  · rw [targetByte_of_virtAddr hreg hinfo hmode]
    simp [hmode]

end Negotiated

/-- A provider that hands out key `7` for every buffer it registers. -/
def regattrSeven (buffer : Address) (length : BitVec 64) : FidMr :=
  { iovBase := buffer, iovLen := length, key := 7 }

/-- The second 64 bytes of a page registered at `0x1000`, under virtual addresses. -/
theorem targetByte_remoteRmaAddrValue_virtAddr :
    targetByte (fun _ => some (regattrSeven 0x1000 0x1000)) fiMrVirtAddr 7
        (remoteRmaAddrValue (some ⟨some ⟨fiMrVirtAddr⟩⟩) ⟨0x1040, 7, 64⟩ 8) = some 0x1048 :=
  (@targetByte_remoteRmaAddrValue_iff _ (.ofRegistration regattrSeven 0x1000 0x1000) _
    ⟨fiMrVirtAddr⟩ 64 64 64 8 _ (MemorySegment.registered_ofRegistration 0x1000 0x1000 rfl)
    rfl rfl).mpr (.inl (by decide))

/-- Not every handle is reached under every address mode: with relative addresses, the first
byte of the second 64 bytes of a page registered at `0x1000` is taken for the first byte of the
page. -/
theorem not_forall_targetByte_remoteRmaAddrValue :
    ¬ ∀ (mrs : BitVec 64 → Option FidMr) (seg : MemorySegment) (mr : FidMr) (attr : DomainAttr)
      (off size o : BitVec 64) (info : RmaKeyInfo), seg.Registered mr → mrs mr.key = some mr →
      (seg.getHandle off size).rmaKeyInfo size = some info →
      off.toNat + size.toNat ≤ mr.iovLen.toNat → o < size →
      targetByte mrs attr.mrMode info.remoteKey
        (remoteRmaAddrValue (some ⟨some attr⟩) info o) = some (mr.iovBase + off + o) := by
  intro h
  have hbyte := h (fun _ => some (regattrSeven 0x1000 0x1000))
    (.ofRegistration regattrSeven 0x1000 0x1000) (regattrSeven 0x1000 0x1000) ⟨0⟩ 64 64 0
    ⟨0x1040, 7, 64⟩ (MemorySegment.registered_ofRegistration 0x1000 0x1000 rfl) rfl rfl
    (by decide) (by decide)
  exact absurd hbyte (by decide)

end LibFatbat
