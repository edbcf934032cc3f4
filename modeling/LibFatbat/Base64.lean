import Mathlib.Tactic.Common

/-!
# Base64 as the bootstrap encodes addresses

`base64_encode` and `base64_decode` of `util/base64.hpp`, byte for byte: both are loops over a
partly filled group of bytes, with a tail after the loop for an incomplete group. A C++ string
is the list of its bytes.

The loops are related to two functions on whole groups, `encodeGroups` and `decodeGroups`, which
read three bytes or four characters at a time:

* `base64Encode_eq`: the encoder computes `encodeGroups`;
* `base64Decode_eq`: the decoder computes `decodeGroups` of the six-bit values of the longest
  prefix made of alphabet characters, whatever its uninitialised buffer held;
* `base64Decode_base64Encode`: decoding inverts encoding, for every byte string.
-/

namespace LibFatbat

/-- `base64_chars`. -/
def base64Chars : List UInt8 :=
  ("ABCDEFGHIJKLMNOPQRSTUVWXYZ" ++ "abcdefghijklmnopqrstuvwxyz" ++ "0123456789+/").toList.map
    (·.toNat.toUInt8)

/-- `base64_chars[k]`. Indexing a string at its length gives the zero byte. -/
def base64Char (k : UInt8) : UInt8 := base64Chars.getD k.toNat 0

/-- `base64_chars.find(c)` as assigned to an `unsigned char`: a byte outside the alphabet gives
`npos`, of which the low eight bits are kept. -/
def base64Find (c : UInt8) : UInt8 :=
  match base64Chars.idxOf? c with
  | some k => k.toUInt8
  | none => 255

/-- The padding character `'='`. -/
def base64Pad : UInt8 := 61

/-- The loop `for (j = i; j < n; j++) a[j] = 0`. -/
def fillZeros {n : ℕ} (a : Vector UInt8 n) (i : ℕ) : Vector UInt8 n :=
  Vector.ofFn fun j => if i ≤ j.val then 0 else a[j]

/-! ### Encoding -/

/-- `char_array_4` computed from `char_array_3`. -/
def sextets (a : Vector UInt8 3) : Vector UInt8 4 :=
  #v[(a[0] &&& 0xfc) >>> 2,
    ((a[0] &&& 0x03) <<< 4) + ((a[1] &&& 0xf0) >>> 4),
    ((a[1] &&& 0x0f) <<< 2) + ((a[2] &&& 0xc0) >>> 6),
    a[2] &&& 0x3f]

/-- The variables of the encoding loop. -/
structure EncodeState where
  /-- The number of bytes in the current group. -/
  i : ℕ
  /-- `char_array_3`. -/
  charArray3 : Vector UInt8 3
  /-- The output so far. -/
  ret : List UInt8

/-- The body of the encoding loop, for the next byte. -/
def encodeStep (s : EncodeState) (b : UInt8) : EncodeState :=
  let a := s.charArray3.setIfInBounds s.i b
  if s.i + 1 = 3 then
    { i := 0, charArray3 := a, ret := s.ret ++ (sextets a).toList.map base64Char }
  else { s with i := s.i + 1, charArray3 := a }

/-- What follows the encoding loop: the rest of an incomplete group is filled with zero bytes,
`i + 1` characters are written for it and padded to four. -/
def encodeTail (s : EncodeState) : List UInt8 :=
  if s.i = 0 then s.ret
  else
    s.ret ++ ((sextets (fillZeros s.charArray3 s.i)).toList.map base64Char).take (s.i + 1) ++
      List.replicate (3 - s.i) base64Pad

/-- `base64_encode`, with the initial contents `junk` of its uninitialised buffer. -/
def base64Encode (junk : Vector UInt8 3) (bytes : List UInt8) : List UInt8 :=
  encodeTail (bytes.foldl encodeStep { i := 0, charArray3 := junk, ret := [] })

/-- Encoding by whole groups of three bytes. -/
def encodeGroups : List UInt8 → List UInt8
  | a :: b :: c :: rest => (sextets #v[a, b, c]).toList.map base64Char ++ encodeGroups rest
  | [a, b] => ((sextets #v[a, b, 0]).toList.map base64Char).take 3 ++ [base64Pad]
  | [a] => ((sextets #v[a, 0, 0]).toList.map base64Char).take 2 ++ [base64Pad, base64Pad]
  | [] => []

/-- The bytes stored into a buffer of three one after the other. -/
theorem setIfInBounds_three (junk : Vector UInt8 3) (a b c : UInt8) :
    ((junk.setIfInBounds 0 a).setIfInBounds 1 b).setIfInBounds 2 c = #v[a, b, c] := by
  ext j hj
  match j, hj with
  | 0, _ => simp
  | 1, _ => simp
  | 2, _ => simp

/-- A group of two bytes filled up with a zero byte. -/
theorem fillZeros_two (junk : Vector UInt8 3) (a b : UInt8) :
    fillZeros ((junk.setIfInBounds 0 a).setIfInBounds 1 b) 2 = #v[a, b, 0] := by
  ext j hj
  match j, hj with
  | 0, _ => simp [fillZeros]
  | 1, _ => simp [fillZeros]
  | 2, _ => simp [fillZeros]

/-- A group of one byte filled up with zero bytes. -/
theorem fillZeros_one (junk : Vector UInt8 3) (a : UInt8) :
    fillZeros (junk.setIfInBounds 0 a) 1 = #v[a, 0, 0] := by
  ext j hj
  match j, hj with
  | 0, _ => simp [fillZeros]
  | 1, _ => simp [fillZeros]
  | 2, _ => simp [fillZeros]

/-- Three turns of the encoding loop write the four characters of a group. -/
theorem encodeStep_group (junk : Vector UInt8 3) (ret : List UInt8) (a b c : UInt8) :
    encodeStep (encodeStep (encodeStep ⟨0, junk, ret⟩ a) b) c =
      ⟨0, #v[a, b, c], ret ++ (sextets #v[a, b, c]).toList.map base64Char⟩ := by
  simp [encodeStep, setIfInBounds_three]

/-- The loop and its tail add `encodeGroups` of the bytes to what was written before. -/
theorem encodeTail_foldl (junk : Vector UInt8 3) (ret bytes : List UInt8) :
    encodeTail (bytes.foldl encodeStep ⟨0, junk, ret⟩) = ret ++ encodeGroups bytes := by
  induction bytes using encodeGroups.induct generalizing junk ret with
  | case1 a b c rest ih =>
    simp only [List.foldl_cons, encodeStep_group, ih, encodeGroups, List.append_assoc]
  | case2 a b => simp [encodeStep, encodeTail, encodeGroups, fillZeros_two]
  | case3 a => simp [encodeStep, encodeTail, encodeGroups, fillZeros_one]
  | case4 => simp [encodeTail, encodeGroups]

/-- The encoder computes `encodeGroups`, whatever its buffer held. -/
theorem base64Encode_eq (junk : Vector UInt8 3) (bytes : List UInt8) :
    base64Encode junk bytes = encodeGroups bytes :=
  encodeTail_foldl junk [] bytes

/-! ### Decoding -/

/-- `isalnum` in the `"C"` locale. -/
def isAlnum (c : UInt8) : Bool :=
  (48 ≤ c && c ≤ 57) || (65 ≤ c && c ≤ 90) || (97 ≤ c && c ≤ 122)

/-- The condition under which the decoding loop reads on. -/
def isBase64Char (c : UInt8) : Bool := c != base64Pad && (isAlnum c || c == 43 || c == 47)

/-- `char_array_3` computed from `char_array_4`. -/
def octets (a : Vector UInt8 4) : Vector UInt8 3 :=
  #v[(a[0] <<< 2) + ((a[1] &&& 0x30) >>> 4),
    ((a[1] &&& 0xf) <<< 4) + ((a[2] &&& 0x3c) >>> 2),
    ((a[2] &&& 0x3) <<< 6) + a[3]]

/-- The bytes of a group, in order. -/
theorem toList_octets (a : Vector UInt8 4) :
    (octets a).toList = [(octets a)[0], (octets a)[1], (octets a)[2]] := rfl

theorem octets_eq (a : Vector UInt8 4) :
    octets a = #v[(octets a)[0], (octets a)[1], (octets a)[2]] := rfl

/-- The variables of the decoding loop. -/
structure DecodeState where
  /-- The number of characters in the current group. -/
  i : ℕ
  /-- `char_array_4`. -/
  charArray4 : Vector UInt8 4
  /-- The output so far. -/
  ret : List UInt8

/-- The body of the decoding loop, for the next character. -/
def decodeStep (s : DecodeState) (c : UInt8) : DecodeState :=
  let a := s.charArray4.setIfInBounds s.i c
  if s.i + 1 = 4 then
    let v := a.map base64Find
    { i := 0, charArray4 := v, ret := s.ret ++ (octets v).toList }
  else { s with i := s.i + 1, charArray4 := a }

/-- The decoding loop, which stops at the first character outside the alphabet. -/
def decodeLoop (s : DecodeState) : List UInt8 → DecodeState
  | [] => s
  | c :: cs => if isBase64Char c then decodeLoop (decodeStep s c) cs else s

/-- What follows the decoding loop: the rest of an incomplete group is filled with zero bytes,
looked up like the others, and `i - 1` bytes are written for it. -/
def decodeTail (s : DecodeState) : List UInt8 :=
  if s.i = 0 then s.ret
  else
    s.ret ++ (octets ((fillZeros s.charArray4 s.i).map base64Find)).toList.take (s.i - 1)

/-- `base64_decode`, with the initial contents `junk` of its uninitialised buffer. -/
def base64Decode (junk : Vector UInt8 4) (encoded : List UInt8) : List UInt8 :=
  decodeTail (decodeLoop { i := 0, charArray4 := junk, ret := [] } encoded)

/-- Decoding by whole groups of four six-bit values. -/
def decodeGroups : List UInt8 → List UInt8
  | k₀ :: k₁ :: k₂ :: k₃ :: rest => (octets #v[k₀, k₁, k₂, k₃]).toList ++ decodeGroups rest
  | [k₀, k₁, k₂] => (octets #v[k₀, k₁, k₂, base64Find 0]).toList.take 2
  | [k₀, k₁] => (octets #v[k₀, k₁, base64Find 0, base64Find 0]).toList.take 1
  | [_] => []
  | [] => []

/-- The loop folds its body over the longest prefix made of alphabet characters. -/
theorem decodeLoop_eq (s : DecodeState) (cs : List UInt8) :
    decodeLoop s cs = (cs.takeWhile isBase64Char).foldl decodeStep s := by
  induction cs generalizing s with
  | nil => simp [decodeLoop]
  | cons c cs ih =>
    by_cases hc : isBase64Char c
    · simp [decodeLoop, hc, ih]
    · simp [decodeLoop, hc]

/-- The characters stored into a buffer of four one after the other. -/
theorem setIfInBounds_four (junk : Vector UInt8 4) (a b c d : UInt8) :
    (((junk.setIfInBounds 0 a).setIfInBounds 1 b).setIfInBounds 2 c).setIfInBounds 3 d =
      #v[a, b, c, d] := by
  ext j hj
  match j, hj with
  | 0, _ => simp
  | 1, _ => simp
  | 2, _ => simp
  | 3, _ => simp

/-- Four turns of the decoding loop write the three bytes of a group. -/
theorem decodeStep_group (junk : Vector UInt8 4) (ret : List UInt8) (a b c d : UInt8) :
    decodeStep (decodeStep (decodeStep (decodeStep ⟨0, junk, ret⟩ a) b) c) d =
      ⟨0, #v[a, b, c, d].map base64Find,
        ret ++ (octets (#v[a, b, c, d].map base64Find)).toList⟩ := by
  simp [decodeStep, setIfInBounds_four]

/-- A group of `i` characters filled up with zero bytes. -/
theorem fillZeros_four (a b c d : UInt8) (i : ℕ) :
    fillZeros #v[a, b, c, d] i = #v[if i ≤ 0 then 0 else a, if i ≤ 1 then 0 else b,
      if i ≤ 2 then 0 else c, if i ≤ 3 then 0 else d] := by
  ext j hj
  match j, hj with
  | 0, _ => simp [fillZeros]
  | 1, _ => simp [fillZeros]
  | 2, _ => simp [fillZeros]
  | 3, _ => simp [fillZeros]

/-- A buffer of four is the vector of its elements. -/
theorem vector_four (v : Vector UInt8 4) : v = #v[v[0], v[1], v[2], v[3]] := by
  ext j hj
  match j, hj with
  | 0, _ => simp
  | 1, _ => simp
  | 2, _ => simp
  | 3, _ => simp

/-- The loop and its tail add `decodeGroups` of the six-bit values to what was written
before. -/
theorem decodeTail_foldl (junk : Vector UInt8 4) (ret cs : List UInt8) :
    decodeTail (cs.foldl decodeStep ⟨0, junk, ret⟩) = ret ++ decodeGroups (cs.map base64Find) := by
  induction cs using decodeGroups.induct generalizing junk ret with
  | case1 a b c d rest ih =>
    simp only [List.foldl_cons, decodeStep_group, ih, List.map_cons, decodeGroups,
      List.append_assoc]
    simp
  | case2 a b c =>
    rw [vector_four junk]
    simp [decodeStep, decodeTail, decodeGroups, fillZeros_four]
  | case3 a b =>
    rw [vector_four junk]
    simp [decodeStep, decodeTail, decodeGroups, fillZeros_four]
  | case4 a => simp [decodeStep, decodeTail, decodeGroups]
  | case5 => simp [decodeTail, decodeGroups]

/-- The decoder computes `decodeGroups` of the six-bit values of the longest prefix made of
alphabet characters, whatever its buffer held. -/
theorem base64Decode_eq (junk : Vector UInt8 4) (encoded : List UInt8) :
    base64Decode junk encoded =
      decodeGroups ((encoded.takeWhile isBase64Char).map base64Find) := by
  rw [base64Decode, decodeLoop_eq, decodeTail_foldl, List.nil_append]

/-! ### The round trip -/

/-- What holds of the 256 bytes holds of every byte. -/
theorem forall_byte {P : UInt8 → Prop} (h : ∀ n < 256, P (UInt8.ofNat n)) (x : UInt8) : P x := by
  simpa using h x.toNat x.toNat_lt

/-- The masks and shifts of the two group conversions are quotients and remainders. -/
theorem toNat_masks : ∀ x : UInt8,
    ((x &&& 0xfc) >>> 2).toNat = x.toNat / 4 ∧
    ((x &&& 0x03) <<< 4).toNat = x.toNat % 4 * 16 ∧
    ((x &&& 0xf0) >>> 4).toNat = x.toNat / 16 ∧
    ((x &&& 0x0f) <<< 2).toNat = x.toNat % 16 * 4 ∧
    ((x &&& 0xc0) >>> 6).toNat = x.toNat / 64 ∧
    (x &&& 0x3f).toNat = x.toNat % 64 ∧
    ((x &&& 0x30) >>> 4).toNat = x.toNat / 16 % 4 ∧
    ((x &&& 0xf) <<< 4).toNat = x.toNat % 16 * 16 ∧
    ((x &&& 0x3c) >>> 2).toNat = x.toNat / 4 % 16 ∧
    ((x &&& 0x3) <<< 6).toNat = x.toNat % 4 * 64 :=
  forall_byte (by decide +kernel)

/-- The shift without a mask, which would also match the left shift of a masked byte. -/
theorem toNat_shiftLeft_two (x : UInt8) : (x <<< 2).toNat = x.toNat * 4 % 256 := by
  simp [UInt8.toNat_shiftLeft, Nat.shiftLeft_eq]

/-- The four six-bit values of a group are below 64. -/
theorem sextets_lt (a : Vector UInt8 3) : ∀ k ∈ (sextets a).toList, k.toNat < 64 := by
  have h0 := a[0].toNat_lt
  have h1 := a[1].toNat_lt
  have h2 := a[2].toNat_lt
  simp only [sextets, Vector.toList_mk, List.mem_cons, List.not_mem_nil, or_false]
  rintro k (rfl | rfl | rfl | rfl) <;>
    simp only [UInt8.toNat_add, toNat_masks] <;> omega

/-- The bytes of a group are recovered from its six-bit values. -/
theorem octets_sextets (a b c : UInt8) : octets (sextets #v[a, b, c]) = #v[a, b, c] := by
  have ha := a.toNat_lt
  have hb := b.toNat_lt
  have hc := c.toNat_lt
  ext j hj
  match j, hj with
  | 0, _ =>
    simp only [octets, sextets, Vector.getElem_mk, List.getElem_toArray, List.getElem_cons_zero,
      List.getElem_cons_succ, UInt8.toNat_add, toNat_masks, toNat_shiftLeft_two]
    omega
  | 1, _ =>
    simp only [octets, sextets, Vector.getElem_mk, List.getElem_toArray, List.getElem_cons_zero,
      List.getElem_cons_succ, UInt8.toNat_add, toNat_masks]
    omega
  | 2, _ =>
    simp only [octets, sextets, Vector.getElem_mk, List.getElem_toArray, List.getElem_cons_zero,
      List.getElem_cons_succ, UInt8.toNat_add, toNat_masks]
    omega

/-- The decoding loop reads on over the alphabet, and finds every six-bit value again at its
place. -/
theorem base64Char_spec {k : UInt8} (h : k.toNat < 64) :
    isBase64Char (base64Char k) = true ∧ base64Find (base64Char k) = k := by
  have htable : ∀ n < 64, isBase64Char (base64Char (UInt8.ofNat n)) = true ∧
      base64Find (base64Char (UInt8.ofNat n)) = UInt8.ofNat n := by
    decide +kernel
  simpa using htable k.toNat h

/-- The decoding loop reads on over characters written for a group, and finds their six-bit
values again. -/
theorem takeWhile_group {ks : List UInt8} (hks : ∀ k ∈ ks, k.toNat < 64) (rest : List UInt8) :
    ((ks.map base64Char ++ rest).takeWhile isBase64Char).map base64Find =
      ks ++ (rest.takeWhile isBase64Char).map base64Find := by
  have hread : ∀ c ∈ ks.map base64Char, isBase64Char c = true := by
    intro c hc
    obtain ⟨k, hk, rfl⟩ := List.mem_map.mp hc
    exact (base64Char_spec (hks k hk)).1
  have hfind : (ks.map base64Char).map base64Find = ks := by
    rw [List.map_map]
    exact (List.map_congr_left fun k hk => (base64Char_spec (hks k hk)).2).trans (List.map_id _)
  rw [List.takeWhile_append_of_pos hread, List.map_append, hfind]

/-- The padding character ends the decoding loop. -/
theorem takeWhile_pad (rest : List UInt8) :
    (base64Pad :: rest).takeWhile isBase64Char = [] := by
  rw [List.takeWhile_cons, if_neg (by decide)]

/-- The six-bit values of a group, in order. -/
theorem toList_sextets (a : Vector UInt8 3) :
    (sextets a).toList =
      [(sextets a)[0], (sextets a)[1], (sextets a)[2], (sextets a)[3]] := by
  conv_lhs => rw [vector_four (sextets a)]
  rfl

/-- The first two bytes of a group do not depend on its last six-bit value. -/
theorem take_two_octets (k₀ k₁ k₂ x y : UInt8) :
    (octets #v[k₀, k₁, k₂, x]).toList.take 2 = (octets #v[k₀, k₁, k₂, y]).toList.take 2 := rfl

/-- The first byte of a group depends only on its first two six-bit values. -/
theorem take_one_octets (k₀ k₁ x y x' y' : UInt8) :
    (octets #v[k₀, k₁, x, y]).toList.take 1 = (octets #v[k₀, k₁, x', y']).toList.take 1 := rfl

/-- Decoding groups inverts encoding groups. -/
theorem decodeGroups_encodeGroups (bytes : List UInt8) :
    decodeGroups (((encodeGroups bytes).takeWhile isBase64Char).map base64Find) = bytes := by
  induction bytes using encodeGroups.induct with
  | case1 a b c rest ih =>
    rw [encodeGroups, takeWhile_group (sextets_lt _), toList_sextets]
    simp only [List.cons_append, List.nil_append, decodeGroups, ih]
    rw [← vector_four, octets_sextets]
    rfl
  | case2 a b =>
    -- three characters are left of the group, and they hold all bits of the two bytes
    have hlt := fun k hk => sextets_lt #v[a, b, 0] k (List.mem_of_mem_take (i := 3) hk)
    rw [encodeGroups, ← List.map_take, takeWhile_group hlt, takeWhile_pad, toList_sextets]
    simp only [List.take_succ_cons, List.take_zero, List.map_nil, List.append_nil, decodeGroups]
    rw [take_two_octets _ _ _ _ (sextets #v[a, b, 0])[3], ← vector_four, octets_sextets]
    rfl
  | case3 a =>
    -- two characters are left of the group, and they hold all bits of the byte
    have hlt := fun k hk => sextets_lt #v[a, 0, 0] k (List.mem_of_mem_take (i := 2) hk)
    rw [encodeGroups, ← List.map_take, takeWhile_group hlt, takeWhile_pad, toList_sextets]
    simp only [List.take_succ_cons, List.take_zero, List.map_nil, List.append_nil, decodeGroups]
    rw [take_one_octets _ _ _ _ (sextets #v[a, 0, 0])[2] (sextets #v[a, 0, 0])[3],
      ← vector_four, octets_sextets]
    rfl
  | case4 => simp [encodeGroups, decodeGroups]

/-- Decoding inverts encoding, whatever the buffers of either held before. -/
theorem base64Decode_base64Encode (junk₃ : Vector UInt8 3) (junk₄ : Vector UInt8 4)
    (bytes : List UInt8) : base64Decode junk₄ (base64Encode junk₃ bytes) = bytes := by
  rw [base64Decode_eq, base64Encode_eq, decodeGroups_encodeGroups]

/-- Every started group of three bytes takes four characters. -/
theorem length_base64Encode (junk : Vector UInt8 3) (bytes : List UInt8) :
    (base64Encode junk bytes).length = 4 * ((bytes.length + 2) / 3) := by
  rw [base64Encode_eq]
  induction bytes using encodeGroups.induct with
  | case1 a b c rest ih =>
    simp only [encodeGroups, List.length_append, List.length_map, Vector.length_toList, ih,
      List.length_cons]
    omega
  | case2 a b => simp [encodeGroups]
  | case3 a => simp [encodeGroups]
  | case4 => simp [encodeGroups]

/-- `"Zm9vYg=="`, the encoding of `"foob"`. -/
example : base64Encode #v[1, 2, 3] [102, 111, 111, 98] = [90, 109, 57, 118, 89, 103, 61, 61] := by
  decide +kernel

end LibFatbat
