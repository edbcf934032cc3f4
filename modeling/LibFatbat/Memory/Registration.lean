import LibFatbat.Memory.Region
import LibFatbat.Communicator.Provider
import LibFatbat.Program.Return

/-!
# Registering memory

`make_region` and the constructor of `memory_segment`, with the calls of libfabric that they make.
The length of a buffer is 64 bits wide everywhere but in the member `size_`, which is 32 bits wide.
`register_memory` registers the range that the member tells, the constructor of `memory_segment`
the range it is given.

Main result: `registration_covers_iff`. Both paths register the buffer and report its length if and
only if the length fits the member.

An endpoint is of any type `ε`. The protection domain is left out.
-/

namespace LibFatbat

/-- `enum fi_hmem_iface`, as far as it is used. -/
inductive FiHmem
  | system
  | cuda
  | rocr
  deriving DecidableEq

/-- The device support that the library is built with. -/
inductive DeviceSupport
  | off
  | cuda
  | hip
  deriving DecidableEq

/-- `struct fi_mr_attr`, less the members that are always zero. -/
structure MrAttr where
  /-- `mr_iov->iov_base`. -/
  iovBase : Address
  /-- `mr_iov->iov_len`. -/
  iovLen : BitVec 64
  access : BitVec 64
  offset : BitVec 64
  requestedKey : BitVec 64
  iface : FiHmem
  /-- `device.cuda`. -/
  device : ℤ
  pageSize : BitVec 64
  deriving DecidableEq

/-- What registration depends on. -/
structure RegistrationSetup (ε : Type) where
  devices : DeviceSupport
  /-- `sysconf(_SC_PAGESIZE)`. -/
  pageSize : BitVec 64
  /-- The answer of `fi_mr_regattr`: a registration, or an error. -/
  regattr : MrAttr → Except ℤ FidMr
  /-- The answer of `fi_mr_bind`. -/
  bind : FidMr → Option ε → ℤ
  /-- The answer of `fi_mr_enable`. -/
  enable : FidMr → ℤ

/-- A call of libfabric. -/
inductive MrCall (ε : Type)
  | regattr (attr : MrAttr)
  | bind (mr : FidMr) (ep : Option ε)
  | enable (mr : FidMr)

/-- The range handed to `fi_mr_regattr`. -/
def MrCall.range? {ε : Type} : MrCall ε → Option (Address × BitVec 64)
  | .regattr attr => some (attr.iovBase, attr.iovLen)
  | .bind _ _ | .enable _ => none

/-- The endpoint handed to `fi_mr_bind`. -/
def MrCall.endpoint? {ε : Type} : MrCall ε → Option (Option ε)
  | .bind _ ep => some ep
  | .regattr _ | .enable _ => none

/-- Code that registers memory: the state is the list of the calls made, and an error is the code of
the `fabric_error` whose constructor ends the program. -/
abbrev Registering (ε : Type) := EStateM ℤ (List (MrCall ε))

/-- `if (ret) { throw fabric_error(ret, ..); }`. -/
def throwOnError {ε : Type} (ret : ℤ) : Registering ε Unit :=
  if ret ≠ 0 then throw ret else return ()

/-! ### The paths -/

/-- `region_provider::access_flags`. -/
def accessFlags : BitVec 64 := fiRead ||| fiWrite ||| fiRecv ||| fiSend ||| fiRemoteRead |||
  fiRemoteWrite

namespace RegistrationSetup

variable {ε : Type} (cfg : RegistrationSetup ε)

/-- `attr.iface` for a device. -/
def iface (deviceId : ℤ) : FiHmem :=
  if deviceId < 0 then .system
  else
    match cfg.devices with
    | .off => .system
    | .cuda => .cuda
    | .hip => .rocr

/-- `attr.device` for a device. -/
def device (deviceId : ℤ) : ℤ :=
  if deviceId < 0 ∨ cfg.devices = .off then 0 else deviceId

/-- The `attr` of `region_provider::fi_register_memory`. -/
def mrAttr (deviceId : ℤ) (buf : Address) (len access offset requestKey : BitVec 64) :
    MrAttr where
  iovBase := buf
  iovLen := len
  access := access
  offset := offset
  requestedKey := requestKey
  iface := cfg.iface deviceId
  device := cfg.device deviceId
  pageSize := cfg.pageSize

/-- `region_provider::fi_register_memory`. -/
def fiRegisterMemory (deviceId : ℤ) (buf : Address) (len access offset requestKey : BitVec 64) :
    Registering ε FidMr := do
  let attr := cfg.mrAttr deviceId buf len access offset requestKey
  modify (· ++ [.regattr attr])
  match cfg.regattr attr with
  | .error ret => throw ret
  | .ok mr => return mr

/-- What both paths do next. -/
def bindAndEnable (bindMr : Bool) (ep : Option ε) (mr : FidMr) : Registering ε Unit :=
  if bindMr then do
    modify (· ++ [.bind mr ep])
    throwOnError (cfg.bind mr ep)
    modify (· ++ [.enable mr])
    throwOnError (cfg.enable mr)
  else return ()

/-- `memory_region::register_memory`, when its counter is `requestKey`. -/
def registerMemory (r : MemoryRegion) (bindMr : Bool) (ep : Option ε) (deviceId : ℤ)
    (requestKey : BitVec 64) : Registering ε MemoryRegion := do
  let mr ← cfg.fiRegisterMemory deviceId r.address (r.size.setWidth 64) accessFlags 0#64 requestKey
  cfg.bindAndEnable bindMr ep mr
  return { r with region := some mr }

/-- `make_region`. -/
def makeRegion (buffer : Address) (length : BitVec 64) (bindMr : Bool) (ep : Option ε)
    (deviceId : ℤ) (requestKey : BitVec 64) : Registering ε MemoryRegion :=
  cfg.registerMemory (.ofParts none buffer length) bindMr ep deviceId requestKey

/-- The registering constructor of `memory_segment`, when its counter is `requestKey`. -/
def memorySegment (buffer : Address) (length : BitVec 64) (bindMr : Bool) (ep : Option ε)
    (deviceId : ℤ) (requestKey : BitVec 64) : Registering ε MemorySegment := do
  let mr ← cfg.fiRegisterMemory deviceId buffer length accessFlags 0#64 requestKey
  cfg.bindAndEnable bindMr ep mr
  return { region := some mr, address := buffer, size := length.setWidth 32, baseAddr := buffer }

end RegistrationSetup

/-! ### What a region reports -/

/-- `struct region_info`. -/
structure RegionInfo where
  addr : BitVec 64
  rkey : BitVec 64
  size : BitVec 64
  deriving DecidableEq

namespace MemoryRegion

/-- `get_addr`. -/
def getAddr (r : MemoryRegion) : BitVec 64 := r.address

/-- `get_size`. -/
def getSize (r : MemoryRegion) : BitVec 64 := r.size.setWidth 64

/-- `get_info`, undefined for a null registration. -/
def getInfo (r : MemoryRegion) : Option RegionInfo :=
  r.getRemoteKey.map fun rkey => ⟨r.getAddr, rkey, r.getSize⟩

end MemoryRegion

/-- The calls register the buffer and nothing else, and the region reports its length. -/
def Covers {ε : Type} (buffer : Address) (length : BitVec 64) (r : MemoryRegion)
    (calls : List (MrCall ε)) : Prop :=
  calls.filterMap MrCall.range? = [(buffer, length)] ∧ r.getSize = length ∧
    ∃ info, r.getInfo = some info ∧ info.size = length

/-- A handle is for the bytes that it was asked for, and they are in the buffer. -/
def HandleExact (buffer : Address) (length offset size : BitVec 64) (h : MemoryRegion) : Prop :=
  h.getAddr = buffer + offset ∧ h.getSize = size ∧
    (h.getAddr - buffer).toNat + h.getSize.toNat ≤ length.toNat

/-- A segment covers its buffer, and so do the handles cut out of it. -/
def SegmentCovers {ε : Type} (buffer : Address) (length : BitVec 64) (seg : MemorySegment)
    (calls : List (MrCall ε)) : Prop :=
  Covers buffer length seg.toMemoryRegion calls ∧
    ∀ offset size : BitVec 64, offset.toNat + size.toNat ≤ length.toNat →
      HandleExact buffer length offset size (seg.getHandle offset size)

/-! ### The calls made -/

namespace RegistrationSetup

variable {ε : Type} {cfg : RegistrationSetup ε} {s s' : List (MrCall ε)}

/-- The calls of `bindAndEnable`. -/
def bindCalls (bindMr : Bool) (ep : Option ε) (mr : FidMr) : List (MrCall ε) :=
  if bindMr then [.bind mr ep, .enable mr] else []

theorem fiRegisterMemory_ok {deviceId : ℤ} {buf : Address}
    {len access offset requestKey : BitVec 64} {mr : FidMr}
    (h : cfg.fiRegisterMemory deviceId buf len access offset requestKey s = .ok mr s') :
    cfg.regattr (cfg.mrAttr deviceId buf len access offset requestKey) = .ok mr ∧
      s' = s ++ [.regattr (cfg.mrAttr deviceId buf len access offset requestKey)] := by
  unfold fiRegisterMemory at h
  obtain ⟨_, t, ht, hrest⟩ := Program.bind_ok.mp h
  obtain rfl := Program.modify_ok.mp ht
  cases hanswer : cfg.regattr (cfg.mrAttr deviceId buf len access offset requestKey) with
  | error ret =>
    rw [hanswer] at hrest
    exact absurd hrest Program.throw_ok.mp
  | ok mr' =>
    rw [hanswer] at hrest
    obtain ⟨rfl, rfl⟩ := Program.pure_ok.mp hrest
    exact ⟨rfl, rfl⟩

theorem throwOnError_ok {ret : ℤ} {u : Unit} (h : throwOnError ret s = .ok u s') : s = s' := by
  unfold throwOnError at h
  by_cases hret : ret ≠ 0
  · rw [if_pos hret] at h
    exact absurd h Program.throw_ok.mp
  · rw [if_neg hret] at h
    exact (Program.pure_ok.mp h).2

theorem bindAndEnable_ok {bindMr : Bool} {ep : Option ε} {mr : FidMr} {u : Unit}
    (h : cfg.bindAndEnable bindMr ep mr s = .ok u s') : s' = s ++ bindCalls bindMr ep mr := by
  unfold bindAndEnable at h
  cases bindMr with
  | false =>
    obtain ⟨-, rfl⟩ := Program.pure_ok.mp h
    exact (List.append_nil s).symm
  | true =>
    rw [if_pos rfl] at h
    obtain ⟨_, t, ht, hbind⟩ := Program.bind_ok.mp h
    obtain rfl := Program.modify_ok.mp ht
    obtain ⟨_, t, ht, hmodify⟩ := Program.bind_ok.mp hbind
    obtain rfl := throwOnError_ok ht
    obtain ⟨_, t, ht, henable⟩ := Program.bind_ok.mp hmodify
    obtain rfl := Program.modify_ok.mp ht
    obtain rfl := throwOnError_ok henable
    exact List.append_assoc s _ _

/-- `make_region` registers the range that the new region tells. -/
theorem makeRegion_ok {buffer : Address} {length : BitVec 64} {bindMr : Bool} {ep : Option ε}
    {deviceId : ℤ} {requestKey : BitVec 64} {r : MemoryRegion}
    (h : cfg.makeRegion buffer length bindMr ep deviceId requestKey s = .ok r s') :
    ∃ mr, r = .ofParts (some mr) buffer length ∧
      s' = s ++ .regattr (cfg.mrAttr deviceId buffer ((length.setWidth 32).setWidth 64) accessFlags
        0#64 requestKey) :: bindCalls bindMr ep mr := by
  obtain ⟨mr, t, hreg, hrest⟩ := Program.bind_ok.mp h
  obtain ⟨-, rfl⟩ := fiRegisterMemory_ok hreg
  obtain ⟨_, t, hbind, hret⟩ := Program.bind_ok.mp hrest
  obtain rfl := bindAndEnable_ok hbind
  obtain ⟨rfl, rfl⟩ := Program.pure_ok.mp hret
  exact ⟨mr, rfl, by rw [List.append_assoc]; rfl⟩

/-- The constructor of `memory_segment` registers the range that it is given. -/
theorem memorySegment_ok {buffer : Address} {length : BitVec 64} {bindMr : Bool} {ep : Option ε}
    {deviceId : ℤ} {requestKey : BitVec 64} {seg : MemorySegment}
    (h : cfg.memorySegment buffer length bindMr ep deviceId requestKey s = .ok seg s') :
    ∃ mr, seg = .ofRegistration (fun _ _ => mr) buffer length ∧
      s' = s ++ .regattr (cfg.mrAttr deviceId buffer length accessFlags 0#64 requestKey) ::
        bindCalls bindMr ep mr := by
  obtain ⟨mr, t, hreg, hrest⟩ := Program.bind_ok.mp h
  obtain ⟨-, rfl⟩ := fiRegisterMemory_ok hreg
  obtain ⟨_, t, hbind, hret⟩ := Program.bind_ok.mp hrest
  obtain rfl := bindAndEnable_ok hbind
  obtain ⟨rfl, rfl⟩ := Program.pure_ok.mp hret
  exact ⟨mr, rfl, by rw [List.append_assoc]; rfl⟩

/-- Binding registers nothing more. -/
theorem filterMap_range (attr : MrAttr) (bindMr : Bool) (ep : Option ε) (mr : FidMr) :
    (.regattr attr :: bindCalls bindMr ep mr).filterMap MrCall.range? =
      [(attr.iovBase, attr.iovLen)] := by
  cases bindMr <;> rfl

/-- A region is bound to the endpoint given, when it is to be bound. -/
theorem filterMap_endpoint (attr : MrAttr) (ep : Option ε) (mr : FidMr) :
    (.regattr attr :: bindCalls true ep mr).filterMap MrCall.endpoint? = [ep] := rfl

end RegistrationSetup

/-! ### The member `size_` -/

/-- The member holds what fits it. -/
theorem setWidth_setWidth_eq_iff (x : BitVec 64) :
    (x.setWidth 32).setWidth 64 = x ↔ x.toNat < 2 ^ 32 := by
  have hlt := x.isLt
  rw [← BitVec.toNat_inj, BitVec.toNat_setWidth, BitVec.toNat_setWidth]
  omega

/-- A handle is exact if and only if its size fits the member. -/
theorem handleExact_iff {seg : MemorySegment} {buffer : Address} {length offset size : BitVec 64}
    (hbase : seg.baseAddr = buffer) (hinside : offset.toNat + size.toNat ≤ length.toNat) :
    HandleExact buffer length offset size (seg.getHandle offset size) ↔ size.toNat < 2 ^ 32 := by
  have hsize : (seg.getHandle offset size).getSize = (size.setWidth 32).setWidth 64 := rfl
  have haddr : (seg.getHandle offset size).getAddr = buffer + offset := by
    rw [← hbase]
    rfl
  rw [HandleExact, haddr, hsize, setWidth_setWidth_eq_iff]
  constructor
  · rintro ⟨-, hfits, -⟩
    exact hfits
  · intro hfits
    refine ⟨rfl, hfits, ?_⟩
    -- the addition may wrap around, and then the subtraction wraps back
    rwa [(setWidth_setWidth_eq_iff size).mpr hfits, BitVec.add_comm, BitVec.add_sub_cancel]

variable {ε : Type} {cfg : RegistrationSetup ε} {buffer : Address} {length requestKey : BitVec 64}
  {bindMr : Bool} {ep : Option ε} {deviceId : ℤ} {calls : List (MrCall ε)}

/-- `make_region` covers the buffer if and only if the length fits the member. -/
theorem covers_makeRegion_iff {r : MemoryRegion}
    (h : cfg.makeRegion buffer length bindMr ep deviceId requestKey [] = .ok r calls) :
    Covers buffer length r calls ↔ length.toNat < 2 ^ 32 := by
  obtain ⟨mr, rfl, rfl⟩ := RegistrationSetup.makeRegion_ok h
  have hsize : (MemoryRegion.ofParts (some mr) buffer length).getSize =
      (length.setWidth 32).setWidth 64 := rfl
  rw [Covers, hsize, ← setWidth_setWidth_eq_iff]
  constructor
  · rintro ⟨-, hfits, -⟩
    exact hfits
  · intro hfits
    refine ⟨?_, hfits, _, rfl, hfits⟩
    -- the length that is registered is read back from the member
    rw [List.nil_append, RegistrationSetup.filterMap_range, hfits]
    rfl

/-- The constructor of `memory_segment` registers the whole buffer, but what the segment and its
handles report is right if and only if the length fits the member. -/
theorem segmentCovers_memorySegment_iff {seg : MemorySegment}
    (h : cfg.memorySegment buffer length bindMr ep deviceId requestKey [] = .ok seg calls) :
    SegmentCovers buffer length seg calls ↔ length.toNat < 2 ^ 32 := by
  obtain ⟨mr, rfl, rfl⟩ := RegistrationSetup.memorySegment_ok h
  have hsize : (MemorySegment.ofRegistration (fun _ _ => mr) buffer length).getSize =
      (length.setWidth 32).setWidth 64 := rfl
  have hfits := setWidth_setWidth_eq_iff length
  constructor
  · rintro ⟨⟨-, hreported, -⟩, -⟩
    rwa [← hfits, ← hsize]
  · intro hlt
    refine ⟨⟨?_, hsize.trans (hfits.mpr hlt), _, rfl, hfits.mpr hlt⟩, fun offset size hinside => ?_⟩
    · rw [List.nil_append, RegistrationSetup.filterMap_range]
      rfl
    · -- a handle is no longer than its segment
      exact (handleExact_iff rfl hinside).mpr (by omega)

/-- Both paths register exactly the buffer, report its length, and the handles of a segment are
exact, if and only if the length is below `2 ^ 32`. -/
theorem registration_covers_iff {cfg' : RegistrationSetup ε} {bindMr' : Bool} {ep' : Option ε}
    {deviceId' : ℤ} {requestKey' : BitVec 64} {calls' : List (MrCall ε)} {r : MemoryRegion}
    {seg : MemorySegment}
    (hregion : cfg.makeRegion buffer length bindMr ep deviceId requestKey [] = .ok r calls)
    (hsegment : cfg'.memorySegment buffer length bindMr' ep' deviceId' requestKey' [] =
      .ok seg calls') :
    Covers buffer length r calls ∧ SegmentCovers buffer length seg calls' ↔
      length.toNat < 2 ^ 32 := by
  rw [covers_makeRegion_iff hregion, segmentCovers_memorySegment_iff hsegment, and_self]

/-- A provider that registers whatever it is asked to, under the key requested. -/
def RegistrationSetup.willing (ε : Type) : RegistrationSetup ε where
  devices := .off
  pageSize := 4096#64
  regattr attr := .ok ⟨attr.iovBase, attr.iovLen, attr.requestedKey⟩
  bind _ _ := 0
  enable _ := 0

/-- A buffer of a page, on both paths. -/
theorem registration_covers_page :
    ∃ r seg calls calls',
      (RegistrationSetup.willing Unit).makeRegion 0x7000#64 0x1000#64 true (some ()) (-2) 0#64 [] =
          .ok r calls ∧
        (RegistrationSetup.willing Unit).memorySegment 0x7000#64 0x1000#64 false none 0 5#64 [] =
          .ok seg calls' ∧
        Covers 0x7000#64 0x1000#64 r calls ∧ SegmentCovers 0x7000#64 0x1000#64 seg calls' := by
  obtain ⟨r, calls, hregion⟩ : ∃ r calls, (RegistrationSetup.willing Unit).makeRegion
      0x7000#64 0x1000#64 true (some ()) (-2) 0#64 [] = .ok r calls := ⟨_, _, rfl⟩
  obtain ⟨seg, calls', hsegment⟩ : ∃ seg calls, (RegistrationSetup.willing Unit).memorySegment
      0x7000#64 0x1000#64 false none 0 5#64 [] = .ok seg calls := ⟨_, _, rfl⟩
  exact ⟨r, seg, calls, calls', hregion, hsegment,
    (registration_covers_iff hregion hsegment).mpr (by decide)⟩

/-- Of a buffer of `2 ^ 32` bytes `make_region` registers none, and the segment on it reports a
length of zero. -/
theorem registration_truncates :
    ∃ r seg calls calls',
      (RegistrationSetup.willing Unit).makeRegion 0x7000#64 0x100000000#64 false none (-2) 0#64 [] =
          .ok r calls ∧
        calls.filterMap MrCall.range? = [(0x7000#64, 0#64)] ∧
        (RegistrationSetup.willing Unit).memorySegment
          0x7000#64 0x100000000#64 false none (-2) 0#64 [] = .ok seg calls' ∧
        seg.getSize = 0#64 ∧
        ¬ (Covers 0x7000#64 0x100000000#64 r calls ∧
          SegmentCovers 0x7000#64 0x100000000#64 seg calls') := by
  refine ⟨_, _, _, _, rfl, rfl, rfl, rfl, ?_⟩
  rintro ⟨⟨-, hsize, -⟩, -⟩
  exact absurd hsize (by decide)

end LibFatbat
