import Mathlib.Data.List.TakeWhile
import Mathlib.Tactic
import LibFatbat.Base64
import LibFatbat.Bits.Stream

/-!
# What base64 strings stand for

The six-bit values of a base64 string and the bytes it decodes to are the same stream of bits, cut
in two ways. `decodeGroups_stream` says so of whole and of incomplete groups, and with
`base64Decode_eq` it gives the meaning of the decoder on every string, well formed or not:
`base64Decode_spec`.

On strings in the standard padded form (`IsStandard`) encoding also inverts decoding, which together
with `base64Decode_base64Encode` is `base64_roundTrip`.

The counters of the loops are an `int` and an `unsigned int`. They do not overflow on strings of
less than `2 ^ 31` characters.
-/

open BitStream

namespace LibFatbat

/-! ### The alphabet -/

/-- The six-bit value of a character of the alphabet. -/
def base64Value (c : UInt8) : ℕ := base64Chars.idxOf c

/-- The decoding loop reads on over the alphabet. -/
theorem isBase64Char_iff (c : UInt8) : isBase64Char c = true ↔ c ∈ base64Chars := by
  constructor
  · revert c
    exact forall_byte (by decide +kernel)
  · revert c
    decide +kernel

/-- The table of the decoder is the alphabet. -/
theorem base64Find_toNat (c : UInt8) (hc : c ∈ base64Chars) :
    (base64Find c).toNat = base64Value c ∧ base64Value c < 64 ∧ base64Char (base64Find c) = c := by
  revert c hc
  decide +kernel

/-- The longest prefix of a string that is made of characters of the alphabet. -/
def alphabetPrefix (s : List UInt8) : List UInt8 := s.takeWhile (· ∈ base64Chars)

theorem takeWhile_isBase64Char (s : List UInt8) : s.takeWhile isBase64Char = alphabetPrefix s := by
  have hsame : isBase64Char = fun c => decide (c ∈ base64Chars) := by
    funext c
    rw [Bool.eq_iff_iff, isBase64Char_iff, decide_eq_true_eq]
  rw [alphabetPrefix, hsame]

theorem mem_alphabetPrefix {s : List UInt8} {c : UInt8} (hc : c ∈ alphabetPrefix s) :
    c ∈ base64Chars := by
  have hread := List.mem_takeWhile_imp (p := fun c => decide (c ∈ base64Chars)) hc
  exact of_decide_eq_true hread

/-! ### Decoding as regrouping -/

/-- The bytes of a group, as quotients and remainders of its six-bit values. -/
theorem toNat_octets {k₀ k₁ : UInt8} (k₂ k₃ : UInt8) (h₀ : k₀.toNat < 64) (h₁ : k₁.toNat < 64) :
    (octets #v[k₀, k₁, k₂, k₃]).toList.map UInt8.toNat =
      [k₀.toNat * 4 + k₁.toNat / 16, k₁.toNat % 16 * 16 + k₂.toNat / 4 % 16,
        (k₂.toNat % 4 * 64 + k₃.toNat) % 256] := by
  simp only [octets, Vector.getElem_mk, List.getElem_toArray, List.getElem_cons_zero,
    List.getElem_cons_succ, Vector.toList_mk, List.map_cons, List.map_nil, UInt8.toNat_add,
    toNat_masks, toNat_shiftLeft_two, List.cons.injEq, and_true]
  omega

/-- Two six-bit values begin with a byte. -/
theorem word_two (k₀ k₁ : ℕ) (h₁ : k₁ < 64) :
    word 6 k₀ ++ word 6 k₁ = word 8 (k₀ * 4 + k₁ / 16) ++ word 4 k₁ := by
  rw [word_add 2 4 k₁, ← List.append_assoc]
  congr 1
  exact word_append (by omega : k₁ / 2 ^ 4 < 2 ^ 2)

/-- Three six-bit values begin with two bytes. -/
theorem word_three (k₀ k₁ k₂ : ℕ) (h₁ : k₁ < 64) (h₂ : k₂ < 64) :
    word 6 k₀ ++ (word 6 k₁ ++ word 6 k₂) =
      word 8 (k₀ * 4 + k₁ / 16) ++ (word 8 (k₁ % 16 * 16 + k₂ / 4) ++ word 2 k₂) := by
  have hlow : word 4 k₁ = word 4 (k₁ % 16) := word_congr (by omega)
  have hbyte : word 4 (k₁ % 16) ++ word 4 (k₂ / 2 ^ 2) = word 8 (k₁ % 16 * 16 + k₂ / 4) :=
    word_append (by omega : k₂ / 2 ^ 2 < 2 ^ 4)
  rw [← List.append_assoc, word_two k₀ k₁ h₁, List.append_assoc, hlow, word_add 4 2 k₂,
    ← List.append_assoc (word 4 (k₁ % 16)), hbyte]

/-- Four six-bit values are three bytes. -/
theorem word_four (k₀ k₁ k₂ k₃ : ℕ) (h₁ : k₁ < 64) (h₂ : k₂ < 64) (h₃ : k₃ < 64) :
    word 6 k₀ ++ (word 6 k₁ ++ (word 6 k₂ ++ word 6 k₃)) =
      word 8 (k₀ * 4 + k₁ / 16) ++
        (word 8 (k₁ % 16 * 16 + k₂ / 4) ++ word 8 ((k₂ % 4 * 64 + k₃) % 256)) := by
  have hlow : word 2 k₂ = word 2 (k₂ % 4) := word_congr (by omega)
  have hbyte : word 2 (k₂ % 4) ++ word 6 k₃ = word 8 (k₂ % 4 * 64 + k₃) :=
    word_append (by omega : k₃ < 2 ^ 6)
  have hmod : word 8 (k₂ % 4 * 64 + k₃) = word 8 ((k₂ % 4 * 64 + k₃) % 256) :=
    word_congr (by omega)
  have hthree := congrArg (· ++ word 6 k₃) (word_three k₀ k₁ k₂ h₁ h₂)
  simp only [List.append_assoc] at hthree
  rw [hthree, hlow, hbyte, hmod]

private theorem take_append_add {α : Type} {l₁ : List α} {n : ℕ} (l₂ : List α) (m : ℕ)
    (hn : l₁.length = n) : (l₁ ++ l₂).take (n + m) = l₁ ++ l₂.take m := by
  rw [← hn, List.take_length_add_append]

/-- Decoding cuts the stream of six-bit values into bytes, and drops what is left. -/
theorem decodeGroups_stream (ks : List UInt8) (hks : ∀ k ∈ ks, k.toNat < 64) :
    (decodeGroups ks).length = 6 * ks.length / 8 ∧
      stream 8 ((decodeGroups ks).map UInt8.toNat) =
        (stream 6 (ks.map UInt8.toNat)).take (8 * (6 * ks.length / 8)) := by
  induction ks using decodeGroups.induct with
  | case1 k₀ k₁ k₂ k₃ rest ih =>
    simp only [List.mem_cons, forall_eq_or_imp] at hks
    obtain ⟨h₀, h₁, h₂, h₃, hrest⟩ := hks
    obtain ⟨hlength, hstream⟩ := ih hrest
    constructor
    · simp only [decodeGroups, List.length_append, Vector.length_toList, hlength, List.length_cons]
      omega
    · have hhigh : k₂.toNat / 4 % 16 = k₂.toNat / 4 := by omega
      have hgroup := word_four k₀.toNat k₁.toNat k₂.toNat k₃.toNat h₁ h₂ h₃
      have hbytes : 8 * (6 * (rest.length + 4) / 8) = 24 + 8 * (6 * rest.length / 8) := by omega
      have hsplit : stream 6 ((k₀ :: k₁ :: k₂ :: k₃ :: rest).map UInt8.toNat) =
          (word 6 k₀.toNat ++ (word 6 k₁.toNat ++ (word 6 k₂.toNat ++ word 6 k₃.toNat))) ++
            stream 6 (rest.map UInt8.toNat) := by
        simp
      rw [hsplit, List.length_cons, List.length_cons, List.length_cons, List.length_cons, hbytes,
        take_append_add _ _ (by simp), ← hstream, hgroup]
      simp [decodeGroups, toNat_octets k₂ k₃ h₀ h₁, hhigh]
  | case2 k₀ k₁ k₂ =>
    -- three characters hold two bytes, and two bits are left
    simp only [List.mem_cons, forall_eq_or_imp] at hks
    obtain ⟨h₀, h₁, h₂, -⟩ := hks
    have hhigh : k₂.toNat / 4 % 16 = k₂.toNat / 4 := by omega
    have hgroup := word_three k₀.toNat k₁.toNat k₂.toNat h₁ h₂
    refine ⟨by simp [decodeGroups], ?_⟩
    have hsplit : stream 6 ([k₀, k₁, k₂].map UInt8.toNat) =
        (word 8 (k₀.toNat * 4 + k₁.toNat / 16) ++
          word 8 (k₁.toNat % 16 * 16 + k₂.toNat / 4)) ++ word 2 k₂.toNat := by
      simpa using hgroup
    rw [hsplit, List.take_left' (by simp), decodeGroups, List.map_take,
      toNat_octets k₂ (base64Find 0) h₀ h₁]
    simp [hhigh]
  | case3 k₀ k₁ =>
    -- two characters hold one byte, and four bits are left
    simp only [List.mem_cons, forall_eq_or_imp] at hks
    obtain ⟨h₀, h₁, -⟩ := hks
    have hgroup := word_two k₀.toNat k₁.toNat h₁
    refine ⟨by simp [decodeGroups], ?_⟩
    have hsplit : stream 6 ([k₀, k₁].map UInt8.toNat) =
        word 8 (k₀.toNat * 4 + k₁.toNat / 16) ++ word 4 k₁.toNat := by
      simpa using hgroup
    rw [hsplit, List.take_left' (by simp), decodeGroups, List.map_take,
      toNat_octets (base64Find 0) (base64Find 0) h₀ h₁]
    simp
  | case4 k₀ => simp [decodeGroups]
  | case5 => simp [decodeGroups]

theorem map_base64Find (s : List UInt8) :
    (((alphabetPrefix s).map base64Find).map UInt8.toNat) = (alphabetPrefix s).map base64Value := by
  rw [List.map_map]
  exact List.map_congr_left fun c hc => (base64Find_toNat c (mem_alphabetPrefix hc)).1

/-- On every string the decoder yields the first bytes of the stream of the six-bit values of the
longest prefix made of characters of the alphabet, as many as are complete. What follows the prefix
and what the buffer held makes no difference. -/
theorem base64Decode_spec (junk : Vector UInt8 4) (s : List UInt8) :
    (base64Decode junk s).length = 6 * (alphabetPrefix s).length / 8 ∧
      stream 8 ((base64Decode junk s).map UInt8.toNat) =
        (stream 6 ((alphabetPrefix s).map base64Value)).take
          (8 * (6 * (alphabetPrefix s).length / 8)) ∧
      ∀ junk' : Vector UInt8 4, base64Decode junk s = base64Decode junk' (alphabetPrefix s) := by
  have hvalues : ∀ k ∈ (alphabetPrefix s).map base64Find, k.toNat < 64 := by
    intro k hk
    obtain ⟨c, hc, rfl⟩ := List.mem_map.mp hk
    obtain ⟨hvalue, hlt, -⟩ := base64Find_toNat c (mem_alphabetPrefix hc)
    rw [hvalue]
    exact hlt
  obtain ⟨hlength, hstream⟩ := decodeGroups_stream _ hvalues
  rw [List.length_map] at hlength hstream
  rw [map_base64Find] at hstream
  refine ⟨?_, ?_, fun junk' => ?_⟩
  · rw [base64Decode_eq, takeWhile_isBase64Char, hlength]
  · rw [base64Decode_eq, takeWhile_isBase64Char, hstream]
  · have hprefix : alphabetPrefix (alphabetPrefix s) = alphabetPrefix s :=
      List.takeWhile_idem
    rw [base64Decode_eq, base64Decode_eq, takeWhile_isBase64Char, takeWhile_isBase64Char, hprefix]

/-! ### The round trips -/

/-- A string in the standard padded form: characters of the alphabet and up to two `'='` that
complete the last group, with the bits of the last character that no byte needs zero. -/
def IsStandard (s : List UInt8) : Prop :=
  ∃ (cs : List UInt8) (p : ℕ), s = cs ++ List.replicate p base64Pad ∧
    (∀ c ∈ cs, c ∈ base64Chars) ∧ p ≤ 2 ∧ 4 ∣ s.length ∧
      ∀ c ∈ cs.getLast?, base64Value c % 4 ^ p = 0

/-- The six-bit values of a group are recovered from its bytes. -/
theorem sextets_octets {k₀ k₁ k₂ k₃ : UInt8} (h₀ : k₀.toNat < 64) (h₁ : k₁.toNat < 64)
    (h₂ : k₂.toNat < 64) (h₃ : k₃.toNat < 64) :
    sextets (octets #v[k₀, k₁, k₂, k₃]) = #v[k₀, k₁, k₂, k₃] := by
  ext j hj
  match j, hj with
  | 0, _ =>
    simp only [octets, sextets, Vector.getElem_mk, List.getElem_toArray, List.getElem_cons_zero,
      List.getElem_cons_succ, UInt8.toNat_add, toNat_masks, toNat_shiftLeft_two]
    omega
  | 1, _ =>
    simp only [octets, sextets, Vector.getElem_mk, List.getElem_toArray, List.getElem_cons_zero,
      List.getElem_cons_succ, UInt8.toNat_add, toNat_masks, toNat_shiftLeft_two]
    omega
  | 2, _ =>
    simp only [octets, sextets, Vector.getElem_mk, List.getElem_toArray, List.getElem_cons_zero,
      List.getElem_cons_succ, UInt8.toNat_add, toNat_masks]
    omega
  | 3, _ =>
    simp only [octets, sextets, Vector.getElem_mk, List.getElem_toArray, List.getElem_cons_zero,
      List.getElem_cons_succ, UInt8.toNat_add, toNat_masks]
    omega

/-- With the unused bits zero, the bytes not written for a group are zero. -/
theorem octets_two_zero {k₀ k₁ k₂ : UInt8} (h₂ : k₂.toNat % 4 = 0) :
    octets #v[k₀, k₁, k₂, 0] =
      #v[(octets #v[k₀, k₁, k₂, 0])[0], (octets #v[k₀, k₁, k₂, 0])[1], 0] := by
  ext j hj
  match j, hj with
  | 0, _ => rfl
  | 1, _ => rfl
  | 2, _ =>
    simp only [octets, Vector.getElem_mk, List.getElem_toArray, List.getElem_cons_zero,
      List.getElem_cons_succ, UInt8.toNat_add, toNat_masks, UInt8.toNat_zero]
    omega

theorem octets_one_zero {k₀ k₁ : UInt8} (h₁ : k₁.toNat % 16 = 0) :
    octets #v[k₀, k₁, 0, 0] = #v[(octets #v[k₀, k₁, 0, 0])[0], 0, 0] := by
  ext j hj
  match j, hj with
  | 0, _ => rfl
  | 1, _ =>
    simp only [octets, Vector.getElem_mk, List.getElem_toArray, List.getElem_cons_zero,
      List.getElem_cons_succ, UInt8.toNat_add, toNat_masks, UInt8.toNat_zero]
    omega
  | 2, _ =>
    simp only [octets, Vector.getElem_mk, List.getElem_toArray, List.getElem_cons_zero,
      List.getElem_cons_succ, UInt8.toNat_add, toNat_masks, UInt8.toNat_zero]

/-- Encoding groups inverts decoding groups of the characters of a standard string. -/
theorem encodeGroups_decodeGroups {cs : List UInt8} {p : ℕ} (hcs : ∀ c ∈ cs, c ∈ base64Chars)
    (hp : p ≤ 2) (hlength : 4 ∣ cs.length + p)
    (hlast : ∀ c ∈ cs.getLast?, base64Value c % 4 ^ p = 0) :
    encodeGroups (decodeGroups (cs.map base64Find)) = cs ++ List.replicate p base64Pad := by
  have hzero : (0 : UInt8).toNat < 64 := by decide
  induction cs using decodeGroups.induct with
  | case1 c₀ c₁ c₂ c₃ rest ih =>
    simp only [List.mem_cons, forall_eq_or_imp] at hcs
    obtain ⟨h₀, h₁, h₂, h₃, hrest⟩ := hcs
    obtain ⟨hv₀, hlt₀, hc₀⟩ := base64Find_toNat c₀ h₀
    obtain ⟨hv₁, hlt₁, hc₁⟩ := base64Find_toNat c₁ h₁
    obtain ⟨hv₂, hlt₂, hc₂⟩ := base64Find_toNat c₂ h₂
    obtain ⟨hv₃, hlt₃, hc₃⟩ := base64Find_toNat c₃ h₃
    have hend : ∀ c ∈ rest.getLast?, base64Value c % 4 ^ p = 0 := by
      intro c hc
      refine hlast c ?_
      show ([c₀, c₁, c₂, c₃] ++ rest).getLast? = some c
      rw [List.getLast?_append, Option.mem_def.mp hc]
      rfl
    have hdvd : 4 ∣ rest.length + p := by
      simp only [List.length_cons] at hlength
      omega
    have hgroup := sextets_octets (by rwa [hv₀]) (by rwa [hv₁]) (by rwa [hv₂]) (by rwa [hv₃])
    rw [List.map_cons, List.map_cons, List.map_cons, List.map_cons, decodeGroups, toList_octets,
      List.cons_append, List.cons_append, List.cons_append, List.nil_append, encodeGroups,
      ih hrest hdvd hend, ← octets_eq, hgroup]
    simp [hc₀, hc₁, hc₂, hc₃]
  | case2 c₀ c₁ c₂ =>
    -- one padding character, and the third byte would be made of the unused bits
    simp only [List.mem_cons, forall_eq_or_imp] at hcs
    obtain ⟨h₀, h₁, h₂, -⟩ := hcs
    obtain ⟨hv₀, hlt₀, hc₀⟩ := base64Find_toNat c₀ h₀
    obtain ⟨hv₁, hlt₁, hc₁⟩ := base64Find_toNat c₁ h₁
    obtain ⟨hv₂, hlt₂, hc₂⟩ := base64Find_toNat c₂ h₂
    obtain rfl : p = 1 := by
      simp only [List.length_cons, List.length_nil] at hlength
      omega
    have hunused : (base64Find c₂).toNat % 4 = 0 := by
      rw [hv₂]
      exact hlast c₂ rfl
    have hgroup := sextets_octets (by rwa [hv₀]) (by rwa [hv₁]) (by rwa [hv₂]) hzero
    rw [octets_two_zero hunused] at hgroup
    rw [List.map_cons, List.map_cons, List.map_cons, List.map_nil, decodeGroups,
      take_two_octets _ _ _ _ 0, toList_octets, List.take_succ_cons, List.take_succ_cons,
      List.take_zero, encodeGroups, hgroup]
    simp [hc₀, hc₁, hc₂]
  | case3 c₀ c₁ =>
    -- two padding characters, and the last two bytes would be made of the unused bits
    simp only [List.mem_cons, forall_eq_or_imp] at hcs
    obtain ⟨h₀, h₁, -⟩ := hcs
    obtain ⟨hv₀, hlt₀, hc₀⟩ := base64Find_toNat c₀ h₀
    obtain ⟨hv₁, hlt₁, hc₁⟩ := base64Find_toNat c₁ h₁
    obtain rfl : p = 2 := by
      simp only [List.length_cons, List.length_nil] at hlength
      omega
    have hunused : (base64Find c₁).toNat % 16 = 0 := by
      rw [hv₁]
      exact hlast c₁ rfl
    have hgroup := sextets_octets (by rwa [hv₀]) (by rwa [hv₁]) hzero hzero
    rw [octets_one_zero hunused] at hgroup
    rw [List.map_cons, List.map_cons, List.map_nil, decodeGroups,
      take_one_octets _ _ _ _ 0 0, toList_octets, List.take_succ_cons, List.take_zero,
      encodeGroups, hgroup]
    simp [hc₀, hc₁]
  | case4 c₀ =>
    simp only [List.length_singleton] at hlength
    omega
  | case5 =>
    simp only [List.length_nil, Nat.zero_add] at hlength
    obtain rfl : p = 0 := by omega
    rfl

/-- The characters of a standard string before its padding are its longest prefix over the
alphabet. -/
theorem alphabetPrefix_append_pad {cs : List UInt8} (hcs : ∀ c ∈ cs, c ∈ base64Chars) (p : ℕ) :
    alphabetPrefix (cs ++ List.replicate p base64Pad) = cs := by
  have hread : ∀ c ∈ cs, isBase64Char c = true := fun c hc => (isBase64Char_iff c).mpr (hcs c hc)
  rw [← takeWhile_isBase64Char, List.takeWhile_append_of_pos hread]
  cases p with
  | zero => exact List.append_nil cs
  | succ p => rw [List.replicate_succ, takeWhile_pad, List.append_nil]

/-- Encoding and decoding are inverse to each other on byte strings and standard strings, whatever
the buffers held. -/
theorem base64_roundTrip (junk₃ : Vector UInt8 3) (junk₄ : Vector UInt8 4) :
    (∀ bytes, base64Decode junk₄ (base64Encode junk₃ bytes) = bytes) ∧
      ∀ s, IsStandard s → base64Encode junk₃ (base64Decode junk₄ s) = s := by
  constructor
  · intro bytes
    exact base64Decode_base64Encode junk₃ junk₄ bytes
  · rintro s ⟨cs, p, rfl, hcs, hp, hlength, hlast⟩
    rw [List.length_append, List.length_replicate] at hlength
    rw [base64Encode_eq, base64Decode_eq, takeWhile_isBase64Char, alphabetPrefix_append_pad hcs,
      encodeGroups_decodeGroups hcs hp hlength hlast]

/-- The round trip of `"Zm9vYg=="`. -/
theorem base64_roundTrip_foob :
    IsStandard [90, 109, 57, 118, 89, 103, 61, 61] ∧
      base64Encode #v[1, 2, 3] (base64Decode #v[4, 5, 6, 7] [90, 109, 57, 118, 89, 103, 61, 61]) =
        [90, 109, 57, 118, 89, 103, 61, 61] := by
  have hstandard : IsStandard [90, 109, 57, 118, 89, 103, 61, 61] :=
    ⟨[90, 109, 57, 118, 89, 103], 2, by decide +kernel⟩
  exact ⟨hstandard, (base64_roundTrip #v[1, 2, 3] #v[4, 5, 6, 7]).2 _ hstandard⟩

end LibFatbat
