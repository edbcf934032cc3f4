import Mathlib.Tactic

/-!
# Localities and the address vector

A `Locality` is the address of an endpoint, a byte array of the provider's address size, with the
index it has or is meant to have in the address vector (`locality.hpp`). `insertAddress` is
`insert_address` of `controller_base.hpp`: it appends an address to the address vector and checks
that libfabric stored it at the index the caller named.

`fi_av_insert` itself is libfabric's. `AvAnswer` lists its documented outcomes for one address: an
error code, no address inserted, in which case the returned `fi_addr_t` is `FI_ADDR_NOTAVAIL`, or
the address appended to the table and its index returned.
-/

namespace LibFatbat

variable {n : ℕ}

/-- `FI_ADDR_NOTAVAIL`. -/
def fiAddrNotavail : ℕ := 2 ^ 64 - 1

/-- The bytes of an endpoint address, of length `locality_defs::array_size`. -/
abbrev FabricData (n : ℕ) := Vector UInt8 n

/-- `struct locality`. -/
structure Locality (n : ℕ) where
  /-- `data_`. -/
  fabricData : FabricData n
  /-- `fi_address_`. -/
  fiAddress : ℕ
  deriving DecidableEq

namespace Locality

/-- The default constructor. -/
def default : Locality n where
  fabricData := Vector.replicate n 0
  fiAddress := 0xffffffff

/-- `std::copy(decoded.begin(), decoded.end(), l.fabric_data_writable())`. -/
def copyData (l : Locality n) (decoded : List UInt8) : Locality n :=
  { l with fabricData := Vector.ofFn fun j => decoded.getD j (l.fabricData.get j) }

/-- `set_fi_address`. -/
def setFiAddress (l : Locality n) (addr : ℕ) : Locality n := { l with fiAddress := addr }

/-- Copying the bytes of an address over a locality leaves exactly those bytes. -/
@[simp]
theorem fabricData_copyData (l : Locality n) (v : FabricData n) :
    (l.copyData v.toList).fabricData = v := by
  ext j hj
  simp [copyData, List.getD_eq_getElem?_getD]

end Locality

/-- The outcomes of `fi_av_insert` for one address. -/
inductive AvAnswer
  /-- A negative error code. -/
  | error (code : ℕ)
  /-- No address inserted: the call returns zero. -/
  | notInserted
  /-- The address is appended to the table. -/
  | inserted
  deriving DecidableEq

/-- `fi_av_insert` of one address: its return value, the index it stores and the table after. -/
def fiAvInsert (av : List (FabricData n)) (data : FabricData n) (index : ℕ) :
    AvAnswer → ℤ × ℕ × List (FabricData n)
  | .error code => (-(code + 1 : ℤ), index, av)
  | .notInserted => (0, fiAddrNotavail, av)
  | .inserted => (1, av.length, av ++ [data])

/-- `insert_address`, with `none` where the program ends in the constructor of a `fabric_error`. It
ends there also when the object is made and not thrown. -/
def insertAddress (numRanks : ℕ) (av : List (FabricData n)) (address : Locality n)
    (answer : AvAnswer) : Option (Locality n × List (FabricData n)) :=
  if numRanks ≤ address.fiAddress then none
  else
    let (ret, index, av') := fiAvInsert av address.fabricData address.fiAddress answer
    if ret < 0 then none
    else if ret = 0 then none
    else
      let newLocality := { address with fiAddress := index }
      if address.fiAddress ≠ newLocality.fiAddress then none else some (newLocality, av')

/-- An insertion that returns has appended the address at the index the caller named. -/
theorem insertAddress_eq_some {numRanks : ℕ} {av av' : List (FabricData n)}
    {address newLocality : Locality n} {answer : AvAnswer}
    (h : insertAddress numRanks av address answer = some (newLocality, av')) :
    av' = av ++ [address.fabricData] ∧ address.fiAddress = av.length ∧
      newLocality = address := by
  have hidx : ¬ numRanks ≤ address.fiAddress := by
    intro hle
    simp [insertAddress, hle] at h
  cases answer with
  | error code =>
    simp [insertAddress, fiAvInsert, hidx] at h
    obtain ⟨hcode, -⟩ := h
    omega
  | notInserted => simp [insertAddress, fiAvInsert, hidx] at h
  | inserted =>
    by_cases heq : address.fiAddress = av.length
    · have hlen : ¬ numRanks ≤ av.length := heq ▸ hidx
      simp only [insertAddress, fiAvInsert, heq, hlen, if_false] at h
      obtain ⟨h₁, h₂⟩ : { address with fiAddress := av.length } = newLocality ∧
          av ++ [address.fabricData] = av' := by simpa using h
      refine ⟨h₂.symm, heq, ?_⟩
      rw [← h₁, ← heq]
    · simp [insertAddress, fiAvInsert, hidx, heq] at h

end LibFatbat
