import Mathlib.Tactic.Common

/-!
# Registered memory: segments and the handles cut out of them

A `MemorySegment` owns one registration of a buffer with libfabric; a `MemoryRegion` is a handle
to a piece of it (`memory_region.hpp`, `memory_segment.hpp`). Addresses, keys and `size_t`
values are `BitVec 64`, so that address arithmetic wraps as it does in the source.

A `fid_mr` is libfabric's own object. What it knows of a registration, the buffer handed to
`fi_mr_regattr` and the key it was given, is the record `FidMr`, and a `provider_region*` is
an `Option FidMr`, `none` for the null pointer.

* `MemorySegment.ofRegistration`, `MemorySegment.moveConstruct` and `MemorySegment.moveAssign`
  are the constructors and the move assignment of the source.
* `MemorySegment.Registered seg mr`: the segment holds the registration `mr` and its base
  address is where `mr` begins. The constructor establishes it and moves hand it on.
-/

namespace LibFatbat

/-- A 64-bit address, `unsigned char*` or `void*` in the source. -/
abbrev Address := BitVec 64

/-- What libfabric knows of a memory region registered with `fi_mr_regattr`. -/
structure FidMr where
  /-- The start of the registered buffer, `mr_iov->iov_base`. -/
  iovBase : Address
  /-- The length of the registered buffer, `mr_iov->iov_len`. -/
  iovLen : BitVec 64
  /-- The key that peers name the region by, `fi_mr_key`. -/
  key : BitVec 64
  deriving DecidableEq, Repr

/-- A handle to registered memory, `struct memory_region`. -/
structure MemoryRegion where
  /-- The handle of the registration that covers the memory, possibly null. -/
  region : Option FidMr
  /-- The start of this piece of memory. -/
  address : Address
  /-- The size of this piece of memory. The member is 32 bits wide. -/
  size : BitVec 32
  deriving DecidableEq, Repr

namespace MemoryRegion

/-- The constructor `memory_region(region, addr, size)`, which truncates the size to 32 bits. -/
def ofParts (region : Option FidMr) (addr : Address) (size : BitVec 64) : MemoryRegion :=
  { region, address := addr, size := size.setWidth 32 }

/-- `get_address`. -/
def getAddress (r : MemoryRegion) : Address := r.address

/-- `get_remote_key`: the key of the registration, undefined for a null registration. -/
def getRemoteKey (r : MemoryRegion) : Option (BitVec 64) := r.region.map FidMr.key

end MemoryRegion

/-- A block of memory with the registration it owns, `struct memory_segment`. -/
structure MemorySegment extends MemoryRegion where
  /-- The base address of the memory registered by this segment. -/
  baseAddr : Address
  deriving DecidableEq, Repr

namespace MemorySegment

/-- The registering constructor: it registers `[buffer, buffer + length)` and keeps the handle
that `fi_mr_regattr` returns. `regattr` is the provider's answer to the buffer and the length. -/
def ofRegistration (regattr : Address → BitVec 64 → FidMr) (buffer : Address)
    (length : BitVec 64) : MemorySegment where
  region := some (regattr buffer length)
  address := buffer
  size := length.setWidth 32
  baseAddr := buffer

/-- The move constructor. Returns the new segment and what is left of `other`. -/
def moveConstruct (other : MemorySegment) : MemorySegment × MemorySegment :=
  ({ region := other.region, address := other.address, size := other.size,
     baseAddr := other.baseAddr },
   { other with region := none, baseAddr := 0 })

/-- The move assignment `*this = std::move(other)` between two different segments. Returns the
target and what is left of `other`. The registration held by the target before is overwritten. -/
def moveAssign (_this other : MemorySegment) : MemorySegment × MemorySegment :=
  ({ region := other.region, address := other.address, size := other.size,
     baseAddr := other.baseAddr },
   { other with region := none, baseAddr := 0 })

/-- `get_handle`: a handle to `size` bytes at `offset` from the base of the segment. -/
def getHandle (seg : MemorySegment) (offset size : BitVec 64) : MemoryRegion :=
  .ofParts seg.region (seg.baseAddr + offset) size

/-- The segment holds the registration `mr`, and its base address is where `mr` begins. -/
structure Registered (seg : MemorySegment) (mr : FidMr) : Prop where
  region_eq : seg.region = some mr
  base_eq : seg.baseAddr = mr.iovBase

/-- The registering constructor yields a segment that holds the registration it made, for every
provider that registers the buffer it was asked to. -/
theorem registered_ofRegistration {regattr : Address → BitVec 64 → FidMr} (buffer : Address)
    (length : BitVec 64) (hbase : (regattr buffer length).iovBase = buffer) :
    (ofRegistration regattr buffer length).Registered (regattr buffer length) where
  region_eq := rfl
  base_eq := hbase.symm

/-- A move constructor hands the registration on and leaves nothing behind. -/
theorem registered_moveConstruct {seg : MemorySegment} {mr : FidMr} (h : seg.Registered mr) :
    seg.moveConstruct.1.Registered mr ∧ seg.moveConstruct.2.region = none :=
  ⟨⟨h.region_eq, h.base_eq⟩, rfl⟩

/-- A move assignment hands the registration on and leaves nothing behind. -/
theorem registered_moveAssign {seg target : MemorySegment} {mr : FidMr}
    (h : seg.Registered mr) :
    (target.moveAssign seg).1.Registered mr ∧ (target.moveAssign seg).2.region = none :=
  ⟨⟨h.region_eq, h.base_eq⟩, rfl⟩

@[simp]
theorem getAddress_getHandle (seg : MemorySegment) (offset size : BitVec 64) :
    (seg.getHandle offset size).getAddress = seg.baseAddr + offset := rfl

@[simp]
theorem getRemoteKey_getHandle (seg : MemorySegment) (offset size : BitVec 64) :
    (seg.getHandle offset size).getRemoteKey = seg.region.map FidMr.key := rfl

end MemorySegment

end LibFatbat
