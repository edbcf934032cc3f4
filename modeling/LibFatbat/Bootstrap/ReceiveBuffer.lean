import Mathlib.Algebra.Order.Floor.Div
import LibFatbat.Bootstrap.Protocol

/-!
# The receive buffer of the bootstrap

The PMI2 variant of `boot_PMI` reads the encoded address of a peer into a buffer of
`array_size * 2` bytes and names `encoded_length + 1` bytes to `PMI2_KVS_Get`, one for the
terminator. The lengths are an `int` and a `uint32_t`.

Main result: `receiveBuffer_fits_iff`. The encoding of an address of 4 bytes takes 8 characters, so
that there is no room for the terminator; every larger multiple of 4 leaves room, as long as the
length of the encoding is an `int`.
-/

namespace LibFatbat

variable {n : ℕ}

/-- The size of `encoded_data`. -/
def encodedDataSize (n : ℕ) : ℕ := (BitVec.ofNat 32 n * 2#32).toNat

/-- `encoded_length`, of a process that encodes its own address. -/
def BootProcess.encodedLength (p : BootProcess n) (encBuf : Vector UInt8 3) : BitVec 32 :=
  BitVec.ofNat 32 (p.encodedLocality encBuf).length

/-- The room named to `PMI2_KVS_Get`. -/
def BootProcess.maxlen (p : BootProcess n) (encBuf : Vector UInt8 3) : BitVec 32 :=
  p.encodedLength encBuf + 1#32

/-- `std::string(encoded_data, encoded_length)` after the get of a value, or `none` for the
`std::length_error` of a negative length. -/
def BootProcess.encodedString (p : BootProcess n) (encBuf : Vector UInt8 3)
    (junk value : List UInt8) : Option (List UInt8) :=
  if (p.encodedLength encBuf).toInt < 0 then none
  else some (kvsGetString (some value) junk (p.maxlen encBuf).toNat (p.encodedLength encBuf).toNat)

/-- Addresses of `n` bytes are encoded in whole groups, there is room for the encoding and its
terminator, and `n` bytes are decoded from the encoding of a peer. -/
structure ReceiveBufferFits (n : ℕ) : Prop where
  length : ∀ (encBuf : Vector UInt8 3) (bytes : List UInt8), bytes.length = n →
    (base64Encode encBuf bytes).length = 4 * (n ⌈/⌉ 3)
  room : ∀ (p : BootProcess n) (encBuf : Vector UInt8 3),
    (p.maxlen encBuf).toInt ≤ encodedDataSize n
  decoded : ∀ (p : BootProcess n) (encBuf : Vector UInt8 3) (decBuf : Vector UInt8 4)
    (junk bytes : List UInt8), bytes.length = n →
    ∃ s, p.encodedString encBuf junk (base64Encode encBuf bytes) = some s ∧
      (base64Decode decBuf s).length = n

/-- Four characters give at most three bytes. -/
theorem length_decodeGroups_le (ks : List UInt8) :
    4 * (decodeGroups ks).length ≤ 3 * ks.length := by
  induction ks using decodeGroups.induct with
  | case1 k₀ k₁ k₂ k₃ rest ih =>
    -- a whole group of four gives three bytes, and a shorter one at most as many as it has
    simp only [decodeGroups, List.length_append, Vector.length_toList, List.length_cons]
    omega
  | case2 | case3 | case4 | case5 => simp [decodeGroups]

theorem length_base64Decode_le (decBuf : Vector UInt8 4) (s : List UInt8) :
    4 * (base64Decode decBuf s).length ≤ 3 * s.length := by
  have hgroups := length_decodeGroups_le ((s.takeWhile isBase64Char).map base64Find)
  have hprefix : (s.takeWhile isBase64Char).length ≤ s.length :=
    (List.takeWhile_prefix isBase64Char).length_le
  rw [List.length_map] at hgroups
  rw [base64Decode_eq]
  omega

/-- Every process encodes an address of `n` bytes. -/
theorem BootProcess.encodedLength_eq (p : BootProcess n) (encBuf : Vector UInt8 3) :
    p.encodedLength encBuf = BitVec.ofNat 32 (4 * ((n + 2) / 3)) := by
  rw [encodedLength, encodedLocality, length_base64Encode, Vector.length_toList]

/-- A process as any other. -/
def BootProcess.default : BootProcess n := ⟨0, .default, .put, []⟩

/-- What fits in an `int` is read back whole. -/
theorem BootProcess.encodedString_eq (p : BootProcess n) (encBuf : Vector UInt8 3)
    (junk : List UInt8) {value : List UInt8} (hvalue : value.length = 4 * ((n + 2) / 3))
    (hint : value.length < 2 ^ 31) : p.encodedString encBuf junk value = some value := by
  have hlength : p.encodedLength encBuf = BitVec.ofNat 32 value.length := by
    rw [p.encodedLength_eq, hvalue]
  have hnat : (p.encodedLength encBuf).toNat = value.length := by
    rw [hlength, BitVec.toNat_ofNat, Nat.mod_eq_of_lt (by omega)]
  have hroom : (p.maxlen encBuf).toNat = value.length + 1 := by
    rw [maxlen, BitVec.toNat_add, hnat, BitVec.toNat_ofNat]
    omega
  have hpos : ¬ (p.encodedLength encBuf).toInt < 0 := by
    rw [BitVec.toInt_eq_toNat_of_lt (by omega), hnat]
    omega
  rw [encodedString, if_neg hpos, hroom, hnat]
  simp [kvsGetString]

/-- When the length of the encoding is no `int`, less is decoded. -/
theorem BootProcess.not_decoded (p : BootProcess n) (encBuf : Vector UInt8 3)
    (decBuf : Vector UInt8 4) (junk value s : List UInt8) (hlarge : 3 * 2 ^ 29 - 2 ≤ n)
    (hs : p.encodedString encBuf junk value = some s) : (base64Decode decBuf s).length < n := by
  unfold encodedString at hs
  by_cases hneg : (p.encodedLength encBuf).toInt < 0
  · rw [if_pos hneg] at hs
    cases hs
  · rw [if_neg hneg] at hs
    obtain rfl := Option.some.inj hs
    have hdecoded := length_base64Decode_le decBuf
      (kvsGetString (some value) junk (p.maxlen encBuf).toNat (p.encodedLength encBuf).toNat)
    have hread : (kvsGetString (some value) junk (p.maxlen encBuf).toNat
        (p.encodedLength encBuf).toNat).length ≤ (p.encodedLength encBuf).toNat :=
      List.length_take_le _ _
    -- a multiple of 4 below `2 ^ 31`
    have hsmall : (p.encodedLength encBuf).toNat ≤ 2 ^ 31 - 4 := by
      rw [BitVec.toInt_eq_toNat_cond] at hneg
      have hlength : (p.encodedLength encBuf).toNat = 4 * ((n + 2) / 3) % 2 ^ 32 := by
        rw [p.encodedLength_eq, BitVec.toNat_ofNat]
      split at hneg <;> omega
    omega

/-- For every locality size that is a positive multiple of 4, encodings have the length they should
have, fit the buffer with their terminator, and are decoded to as many bytes, if and only if the
size is not 4 and the length of an encoding is an `int`. -/
theorem receiveBuffer_fits_iff (hpos : 0 < n) (hdvd : 4 ∣ n) :
    ReceiveBufferFits n ↔ n ≠ 4 ∧ n < 3 * 2 ^ 29 - 2 := by
  constructor
  · intro h
    constructor
    · -- eight characters and the terminator are one too many for 8 bytes
      rintro rfl
      have hroom := h.room .default (Vector.replicate 3 0)
      rw [BootProcess.maxlen, BootProcess.encodedLength_eq] at hroom
      exact absurd hroom (by decide)
    · -- any bytes will do: what is read of their encoding is too short
      by_contra! hlarge
      obtain ⟨s, hs, hlength⟩ := h.decoded .default (Vector.replicate 3 0) (Vector.replicate 4 0) []
        (List.replicate n 0) List.length_replicate
      have hless := BootProcess.not_decoded _ _ (Vector.replicate 4 0) _ _ s hlarge hs
      omega
  · rintro ⟨hne, hint⟩
    -- below the bound the encoder's `int` holds the length
    have hencoded : ∀ (encBuf : Vector UInt8 3) (bytes : List UInt8), bytes.length = n →
        (base64Encode encBuf bytes).length = 4 * ((n + 2) / 3) := by
      intro encBuf bytes hbytes
      rw [length_base64Encode, hbytes]
    refine ⟨fun encBuf bytes hbytes => ?_, fun p encBuf => ?_,
      fun p encBuf decBuf junk bytes hbytes => ?_⟩
    · rw [hencoded encBuf bytes hbytes, Nat.ceilDiv_eq_add_pred_div]
      rfl
    · -- from 8 bytes on, `4 * ((n + 2) / 3) + 1 ≤ 2 * n`
      have hsize : encodedDataSize n = 2 * n := by
        rw [encodedDataSize, BitVec.toNat_mul, BitVec.toNat_ofNat, BitVec.toNat_ofNat]
        omega
      have hroom : (p.maxlen encBuf).toNat = 4 * ((n + 2) / 3) + 1 := by
        rw [BootProcess.maxlen, p.encodedLength_eq, BitVec.toNat_add, BitVec.toNat_ofNat,
          BitVec.toNat_ofNat]
        omega
      rw [BitVec.toInt_eq_toNat_of_lt (by omega), hroom, hsize]
      omega
    · refine ⟨_, p.encodedString_eq encBuf junk (hencoded encBuf bytes hbytes) ?_, ?_⟩
      · rw [hencoded encBuf bytes hbytes]
        omega
      · rw [base64Decode_base64Encode, hbytes]

/-- Addresses of 8 bytes. -/
theorem receiveBuffer_fits_eight : ReceiveBufferFits 8 :=
  (receiveBuffer_fits_iff (by decide) (by decide)).mpr (by decide)

/-- Addresses of 4 bytes: 9 bytes are named to the get, and there are 8. -/
theorem receiveBuffer_overflow :
    ((BootProcess.default : BootProcess 4).maxlen #v[0, 0, 0]).toInt = 9 ∧ encodedDataSize 4 = 8 ∧
      ¬ ReceiveBufferFits 4 := by
  have hmaxlen : ((BootProcess.default : BootProcess 4).maxlen #v[0, 0, 0]).toInt = 9 := by
    rw [BootProcess.maxlen, BootProcess.encodedLength_eq]
    rfl
  refine ⟨hmaxlen, rfl, fun h => ?_⟩
  have hroom := h.room .default #v[0, 0, 0]
  rw [hmaxlen] at hroom
  exact absurd hroom (by decide)

end LibFatbat
