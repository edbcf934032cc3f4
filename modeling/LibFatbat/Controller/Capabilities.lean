import LibFatbat.Bits.Flags
import LibFatbat.Communicator.Provider

/-!
# The negotiation of capabilities

`open_fabric` asks `fi_getinfo` twice. From the candidates of the first query it collects the
capabilities that any of them has, in any of three places, and asks the second time for those that
the derived class requires among them. A single candidate has to have them all, in its own `caps`.

Main result: `queryCaps_satisfiable_iff`. What is asked for is always required. It is satisfiable if
and only if one candidate has, in its own `caps`, every required capability that some candidate
has anywhere.
-/

open BitFlags

namespace LibFatbat

def fiHmem : BitVec 64 := .twoPow 64 47
def fiRmaEvent : BitVec 64 := .twoPow 64 56

/-- The capabilities in a `fi_info`. -/
structure FiInfo where
  caps : BitVec 64
  /-- `tx_attr->caps`, unless `tx_attr` is null. -/
  txAttr : Option (BitVec 64)
  /-- `rx_attr->caps`, unless `rx_attr` is null. -/
  rxAttr : Option (BitVec 64)
  deriving DecidableEq

/-- The body of the loop over the candidates. -/
def addCaps (availableCaps : BitVec 64) (info : FiInfo) : BitVec 64 :=
  let availableCaps := availableCaps ||| info.caps
  let availableCaps :=
    match info.txAttr with
    | some caps => availableCaps ||| caps
    | none => availableCaps
  match info.rxAttr with
  | some caps => availableCaps ||| caps
  | none => availableCaps

/-- `available_caps` of `open_fabric`. -/
def availableCaps (infos : List FiInfo) : BitVec 64 := infos.foldl addCaps 0#64

/-- The body of the loop in `caps_flags`. -/
def clearUnavailable (requiredFlags availableFlags finalFlags : BitVec 64) (bit : ℕ) :
    BitVec 64 :=
  let f := .twoPow 64 bit
  if requiredFlags &&& f ≠ 0#64 ∧ availableFlags &&& f = 0#64 then finalFlags &&& ~~~f
  else finalFlags

/-- `caps_flags` of `controller_base`, given that of the derived class. -/
def capsFlags (derived : BitVec 64 → BitVec 64) (availableFlags : BitVec 64) : BitVec 64 :=
  let requiredFlags := derived availableFlags
  (List.range 64).foldl (clearUnavailable requiredFlags availableFlags) requiredFlags

/-- `caps_flags` of the test controller, for a provider and with or without device support. -/
def testCapsFlags (provider : Provider) (gpuSupport : Bool) (_availableFlags : BitVec 64) :
    BitVec 64 :=
  let flagsRequired := fiMsg ||| fiTagged ||| fiRecv ||| fiSend ||| fiRma ||| fiRead ||| fiWrite |||
    fiRemoteRead ||| fiRemoteWrite ||| fiRmaEvent
  let flagsRequired := if provider = .lnx then 0#64 else flagsRequired
  if gpuSupport then flagsRequired ||| fiHmem else flagsRequired

/-- `hints->caps` of the second query. -/
def queryCaps (derived : BitVec 64 → BitVec 64) (infos : List FiInfo) : BitVec 64 :=
  capsFlags derived (availableCaps infos)

/-- `fi_getinfo`, as far as it depends on `hints->caps`: the candidates that have them. -/
def fiGetinfo (caps : BitVec 64) (infos : List FiInfo) : List FiInfo :=
  infos.filter fun info => info.caps &&& caps = caps

/-- `fabric_info_` of `open_fabric`, unless the second query fails with `-FI_ENODATA`. -/
def fabricInfo (derived : BitVec 64 → BitVec 64) (infos : List FiInfo) : Option FiInfo :=
  (fiGetinfo (queryCaps derived infos) infos).head?

/-! ### The mask -/

/-- The capabilities that a candidate has in any place. -/
def FiInfo.offered (info : FiInfo) : Set ℕ :=
  bits info.caps ∪ bits (info.txAttr.getD 0#64) ∪ bits (info.rxAttr.getD 0#64)

/-- The loop adds everything a candidate has. -/
theorem addCaps_eq (availableCaps : BitVec 64) (info : FiInfo) :
    addCaps availableCaps info =
      availableCaps ||| (info.caps ||| info.txAttr.getD 0#64 ||| info.rxAttr.getD 0#64) := by
  obtain ⟨caps, txAttr, rxAttr⟩ := info
  cases txAttr <;> cases rxAttr <;> simp [addCaps, BitVec.or_assoc]

/-- What is available is what some candidate has. -/
theorem bits_availableCaps (infos : List FiInfo) :
    bits (availableCaps infos) = { i | ∃ info ∈ infos, i ∈ info.offered } := by
  have hloop : addCaps = fun a info =>
      a ||| (info.caps ||| info.txAttr.getD 0#64 ||| info.rxAttr.getD 0#64) := by
    funext a info
    exact addCaps_eq a info
  rw [availableCaps, hloop, bits_foldl_or, bits_zero, Set.empty_union]
  simp only [bits_or]
  rfl

/-- `caps_flags` clears what is not available. -/
theorem bits_capsFlags (derived : BitVec 64 → BitVec 64) (availableFlags : BitVec 64) :
    bits (capsFlags derived availableFlags) =
      bits (derived availableFlags) ∩ bits availableFlags := by
  have hclear := bits_foldl_clear (fun bit => derived availableFlags &&& .twoPow 64 bit ≠ 0#64 ∧
    availableFlags &&& .twoPow 64 bit = 0#64) (derived availableFlags) (le_refl 64)
  ext i
  apply (Set.ext_iff.mp hclear i).trans
  constructor
  · rintro ⟨hrequired, hkept⟩
    refine ⟨hrequired, ?_⟩
    -- the loop has been at every bit, and clears one that is required and not available
    by_contra hunavailable
    refine hkept (lt_of_mem_bits hrequired) ⟨and_twoPow_ne_zero_iff.mpr hrequired, ?_⟩
    exact not_not.mp (mt and_twoPow_ne_zero_iff.mp hunavailable)
  · rintro ⟨hrequired, havailable⟩
    exact ⟨hrequired, fun _ hclears => and_twoPow_ne_zero_iff.mpr havailable hclears.2⟩

/-- What `open_fabric` asks for is what is required and some candidate has in some place. -/
theorem bits_queryCaps (derived : BitVec 64 → BitVec 64) (infos : List FiInfo) :
    bits (queryCaps derived infos) = { i ∈ bits (derived (availableCaps infos)) |
      ∃ info ∈ infos, i ∈ info.offered } := by
  rw [queryCaps, bits_capsFlags, bits_availableCaps]
  rfl

/-- The second query finds a candidate when one has all that it asks for. -/
theorem fabricInfo_ne_none_iff (derived : BitVec 64 → BitVec 64) (infos : List FiInfo) :
    fabricInfo derived infos ≠ none ↔
      ∃ info ∈ infos, bits (queryCaps derived infos) ⊆ bits info.caps := by
  rw [fabricInfo, ne_eq, List.head?_eq_none_iff, fiGetinfo, List.filter_eq_nil_iff]
  simp only [bits_subset_iff, decide_eq_true_eq]
  grind

/-- The mask of the second query only has required capabilities; and one candidate has them all, so
that the query does not come back empty, if and only if one candidate has in its own `caps` every
required capability that any candidate has in any place. -/
theorem queryCaps_satisfiable_iff (derived : BitVec 64 → BitVec 64) (infos : List FiInfo) :
    (bits (queryCaps derived infos) ⊆ bits (derived (availableCaps infos)) ∧
      (∃ info ∈ infos, bits (queryCaps derived infos) ⊆ bits info.caps) ∧
        fabricInfo derived infos ≠ none) ↔
      ∃ info ∈ infos, ∀ i ∈ bits (derived (availableCaps infos)),
        (∃ other ∈ infos, i ∈ other.offered) → i ∈ bits info.caps := by
  rw [fabricInfo_ne_none_iff, and_self, bits_queryCaps]
  constructor
  · rintro ⟨-, info, hinfo, hsubset⟩
    exact ⟨info, hinfo, fun i hrequired hoffered => hsubset ⟨hrequired, hoffered⟩⟩
  · rintro ⟨info, hinfo, hall⟩
    refine ⟨Set.sep_subset _ _, info, hinfo, ?_⟩
    rintro i ⟨hrequired, hoffered⟩
    exact hall i hrequired hoffered

/-- A candidate for messages and one for remote memory access. What is asked for is required, but
neither has it all. -/
theorem queryCaps_mixes_candidates :
    let infos : List FiInfo :=
      [⟨fiMsg ||| fiTagged ||| fiSend ||| fiRecv, none, none⟩,
        ⟨fiMsg ||| fiSend ||| fiRecv ||| fiRma ||| fiRead ||| fiWrite ||| fiRemoteRead |||
          fiRemoteWrite, none, none⟩]
    queryCaps (testCapsFlags .other false) infos = fiMsg ||| fiTagged ||| fiSend ||| fiRecv |||
        fiRma ||| fiRead ||| fiWrite ||| fiRemoteRead ||| fiRemoteWrite ∧
      fabricInfo (testCapsFlags .other false) infos = none ∧
        ¬ ∃ info ∈ infos,
          bits (queryCaps (testCapsFlags .other false) infos) ⊆ bits info.caps := by
  simp only [bits_subset_iff]
  decide +kernel

end LibFatbat
