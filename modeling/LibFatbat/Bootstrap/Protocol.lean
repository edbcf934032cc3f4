import Mathlib
import LibFatbat.Base64
import LibFatbat.Bootstrap.AddressVector
import LibFatbat.Concurrent.ThreadSystem

/-!
# Exchanging the endpoint addresses

`boot_PMI` of `pmi_helper.hpp`, in its PMI2 and its PMIx variant. Every process puts its encoded
address into the key/value store under a key made from its rank, waits in a fence for all the
others, and then gets the addresses of all ranks in order and inserts them into its address
vector.

The processes are the threads of a `ThreadSystem`; what they share is the key/value store and
who has reached the fence. A get returns what the store holds under the key, and the fence lets a
process pass once all have reached it. A process that an exception leaves is `terminated`.

The main result, `addressVector_of_done`, says that a process that finishes has the address of
every rank at the index of that rank, for any number of ranks and any interleaving.
-/

open Concurrent

namespace LibFatbat

variable {n : ℕ}

/-- The two implementations of `boot_PMI`. -/
inductive PmiVariant
  | pmi2
  | pmix
  deriving DecidableEq

/-- A parallel job: its size, which PMI reports as a `uint32_t`, and the endpoint address of each
rank. -/
structure Job (n : ℕ) where
  /-- The implementation in use. -/
  variant : PmiVariant
  /-- The number of ranks. -/
  size : ℕ
  size_lt : size < 2 ^ 32
  /-- The address that `fi_getname` reported for the endpoint of each rank. -/
  endpoint : ℕ → FabricData n

/-- The key `"LIBFABRIC_" + std::to_string(rank)`. -/
def pmiKey (rank : ℕ) : String := "LIBFABRIC_" ++ toString rank

/-- Different ranks use different keys. -/
theorem pmiKey_injective {r r' : ℕ} (h : pmiKey r = pmiKey r') : r = r' :=
  Nat.repr_injective ((String.append_right_inj _).mp h)

/-- What the processes share. -/
structure PmiStore where
  /-- The committed values of the key/value store. -/
  kvs : String → Option (List UInt8)
  /-- Which ranks have reached the fence. -/
  arrived : ℕ → Bool

/-- Where a process is in `boot_PMI`. -/
inductive BootPc (n : ℕ)
  /-- At the put. -/
  | put
  /-- At `PMIx_Commit`, with the value put. -/
  | commit (value : List UInt8)
  /-- At the entry of the fence. -/
  | fence
  /-- In the fence. -/
  | inFence
  /-- At the head of the loop over the ranks, with loop counter `i`. -/
  | get (i : ℕ)
  /-- At the insertion of the locality of rank `i`. -/
  | insert (i : ℕ) (newLocality : Locality n)
  /-- `boot_PMI` has returned. -/
  | done
  /-- An exception has left `boot_PMI`. -/
  | terminated

/-- A process in `boot_PMI`. -/
structure BootProcess (n : ℕ) where
  /-- Its rank. -/
  rank : ℕ
  /-- `controller->here()`. -/
  here : Locality n
  /-- Where it is. -/
  pc : BootPc n
  /-- The table of its address vector. -/
  av : List (FabricData n)

/-- The string read back with `std::string(encoded_data, len)` after `PMI2_KVS_Get` with room for
`maxlen` bytes, terminator included: the value found, stored over what the buffer held, or only
the latter when there is no value. The return code is not looked at. -/
def kvsGetString (value : Option (List UInt8)) (junk : List UInt8) (maxlen len : ℕ) :
    List UInt8 :=
  match value with
  | some v => (v.take (maxlen - 1) ++ 0 :: junk).take len
  | none => junk.take len

/-- The encoded address of a process, given the initial contents of the encoder's buffer. -/
def BootProcess.encodedLocality (p : BootProcess n) (encBuf : Vector UInt8 3) : List UInt8 :=
  base64Encode encBuf p.here.fabricData.toList

/-- The string to decode, from the value found in the store: PMI2 reads as many characters as
this process's own encoding has, PMIx all of them, and a missing value is an error of PMIx. -/
def BootProcess.received (p : BootProcess n) (variant : PmiVariant) (encBuf : Vector UInt8 3)
    (junk : List UInt8) (value : Option (List UInt8)) : Option (List UInt8) :=
  match variant with
  | .pmi2 =>
    let encodedLength := (p.encodedLocality encBuf).length
    some (kvsGetString value junk (encodedLength + 1) encodedLength)
  | .pmix => value

/-- The locality made from a received string. -/
def receivedLocality (decBuf : Vector UInt8 4) (received : List UInt8) (i : ℕ) : Locality n :=
  (Locality.default.copyData (base64Decode decBuf received)).setFiAddress i

/-- Where a process goes after putting its address: PMIx has to commit it. -/
def afterPut (variant : PmiVariant) (value : List UInt8) : BootPc n :=
  match variant with
  | .pmi2 => .fence
  | .pmix => .commit value

/-- The store after a put: PMI2 publishes the value, PMIx keeps it until the commit. -/
def PmiStore.put (s : PmiStore) (variant : PmiVariant) (key : String) (value : List UInt8) :
    PmiStore :=
  match variant with
  | .pmi2 => { s with kvs := Function.update s.kvs key (some value) }
  | .pmix => s

/-- What a get leads to: the insertion of the locality received, or an exception. -/
def afterGet (decBuf : Vector UInt8 4) (i : ℕ) : Option (List UInt8) → BootPc n
  | some received => .insert i (receivedLocality decBuf received i)
  | none => .terminated

/-- What an insertion leads to: the next rank, or an exception. -/
def BootProcess.afterInsert (p : BootProcess n) (i : ℕ) :
    Option (Locality n × List (FabricData n)) → BootProcess n
  | some (_, av) => { p with pc := .get (i + 1), av }
  | none => { p with pc := .terminated }

/-- The steps of one process. The initial contents of uninitialised buffers are arbitrary, and a
call to PMIx may fail at any time, in which case `CHECK_PMIX` throws. -/
inductive BootStep (job : Job n) :
    ℕ → PmiStore → BootProcess n → PmiStore → BootProcess n → Prop
  | put {t : ℕ} {s : PmiStore} {p : BootProcess n} (encBuf : Vector UInt8 3) (hpc : p.pc = .put) :
      BootStep job t s p
        (s.put job.variant (pmiKey p.rank) (p.encodedLocality encBuf))
        { p with pc := afterPut job.variant (p.encodedLocality encBuf) }
  | commit {t : ℕ} {s : PmiStore} {p : BootProcess n} {value : List UInt8}
      (hpc : p.pc = .commit value) :
      BootStep job t s p
        { s with kvs := Function.update s.kvs (pmiKey p.rank) (some value) }
        { p with pc := .fence }
  | enterFence {t : ℕ} {s : PmiStore} {p : BootProcess n} (hpc : p.pc = .fence) :
      BootStep job t s p
        { s with arrived := Function.update s.arrived p.rank true } { p with pc := .inFence }
  | leaveFence {t : ℕ} {s : PmiStore} {p : BootProcess n} (hpc : p.pc = .inFence)
      (hall : ∀ r < job.size, s.arrived r = true) :
      BootStep job t s p s { p with pc := .get 0 }
  | getPeer {t : ℕ} {s : PmiStore} {p : BootProcess n} {i : ℕ} (encBuf : Vector UInt8 3)
      (decBuf : Vector UInt8 4) (junk : List UInt8) (hpc : p.pc = .get i) (hi : i < job.size)
      (hne : i ≠ p.rank) :
      BootStep job t s p s { p with
        pc := afterGet decBuf i (p.received job.variant encBuf junk (s.kvs (pmiKey i))) }
  | getSelf {t : ℕ} {s : PmiStore} {p : BootProcess n} (hpc : p.pc = .get p.rank)
      (hi : p.rank < job.size) :
      BootStep job t s p s { p with pc := .insert p.rank p.here }
  | insert {t : ℕ} {s : PmiStore} {p : BootProcess n} {i : ℕ} {newLocality : Locality n}
      (answer : AvAnswer) (hpc : p.pc = .insert i newLocality) :
      BootStep job t s p s
        (p.afterInsert i (insertAddress job.size p.av newLocality answer))
  | finish {t : ℕ} {s : PmiStore} {p : BootProcess n} (hpc : p.pc = .get job.size) :
      BootStep job t s p s { p with pc := .done }
  | fail {t : ℕ} {s : PmiStore} {p : BootProcess n} (hvariant : job.variant = .pmix)
      (hpc : p.pc ≠ .done) :
      BootStep job t s p s { p with pc := .terminated }

/-- A process before `boot_PMI`: its controller has its own address with its rank as the index,
and an empty address vector. -/
def BootProcess.start (job : Job n) (rank : ℕ) : BootProcess n where
  rank := rank
  here := { fabricData := job.endpoint rank, fiAddress := rank }
  pc := .put
  av := []

/-- The processes of a job running `boot_PMI`. -/
def bootSystem (job : Job n) : ThreadSystem PmiStore (BootProcess n) where
  init c := c.shared = { kvs := fun _ => none, arrived := fun _ => false } ∧
    c.threads = (List.range job.size).map (BootProcess.start job)
  step := BootStep job

/-! ### What the store holds -/

section Store

variable {job : Job n} {s s' : PmiStore} {p p' : BootProcess n} {t i : ℕ}

/-- The value that rank `r` publishes. -/
def Job.published (job : Job n) (r : ℕ) : List UInt8 := encodeGroups (job.endpoint r).toList

/-- The store holds only published addresses, and those of all ranks that reached the fence. -/
structure PmiStore.Sound (job : Job n) (s : PmiStore) : Prop where
  value : ∀ r v, s.kvs (pmiKey r) = some v → v = job.published r
  arrived : ∀ r, s.arrived r = true → s.kvs (pmiKey r) = some (job.published r)

/-- Nothing that was in the store is lost, and no rank leaves the fence's list. -/
structure PmiStore.Grows (job : Job n) (s s' : PmiStore) : Prop where
  kvs : ∀ r, s.kvs (pmiKey r) = some (job.published r) →
    s'.kvs (pmiKey r) = some (job.published r)
  arrived : ∀ r, s.arrived r = true → s'.arrived r = true

/-- Nothing is lost when nothing changes. -/
theorem PmiStore.Grows.refl : s.Grows job s := ⟨fun _ h => h, fun _ h => h⟩

/-- The store after rank `t` has published its value. -/
def PmiStore.publish (s : PmiStore) (job : Job n) (t : ℕ) : PmiStore :=
  { s with kvs := Function.update s.kvs (pmiKey t) (some (job.published t)) }

/-- A published value is found under the key of its rank. -/
theorem PmiStore.publish_kvs_self (s : PmiStore) (job : Job n) (t : ℕ) :
    (s.publish job t).kvs (pmiKey t) = some (job.published t) := by
  simp [publish]

/-- Publishing a value leaves what is under the other keys. -/
theorem PmiStore.publish_kvs_ne {r : ℕ} (h : r ≠ t) :
    (s.publish job t).kvs (pmiKey r) = s.kvs (pmiKey r) := by
  have hkey : pmiKey r ≠ pmiKey t := fun he => h (pmiKey_injective he)
  simp [publish, hkey]

/-- Publishing a value loses nothing, as no two ranks use the same key. -/
theorem PmiStore.Grows.publish : s.Grows job (s.publish job t) where
  kvs r h := by
    by_cases hr : r = t
    · subst hr
      exact s.publish_kvs_self job _
    · rwa [publish_kvs_ne hr]
  arrived _ h := h

/-- Publishing an address keeps the store sound. -/
theorem PmiStore.Sound.publish (hs : s.Sound job) : (s.publish job t).Sound job where
  value r v h := by
    by_cases hr : r = t
    · subst hr
      rw [publish_kvs_self] at h
      exact (Option.some.inj h).symm
    · rw [publish_kvs_ne hr] at h
      exact hs.value r v h
  arrived r h := PmiStore.Grows.publish.kvs r (hs.arrived r h)

end Store

/-! ### What each process knows -/

section Process

variable {job : Job n} {s s' : PmiStore} {p p' : BootProcess n} {t : ℕ}

/-- The addresses of the ranks below `i`, in order. -/
def Job.addresses (job : Job n) (i : ℕ) : List (FabricData n) := (List.range i).map job.endpoint

/-- What holds of rank `t` at each point of `boot_PMI`. -/
def BootPc.Inv (job : Job n) (t : ℕ) (s : PmiStore) (av : List (FabricData n)) :
    BootPc n → Prop
  | .put => av = []
  | .commit value => value = job.published t ∧ av = []
  | .fence | .inFence => s.kvs (pmiKey t) = some (job.published t) ∧ av = []
  | .get i => (∀ r < job.size, s.arrived r = true) ∧ av = job.addresses i
  | .insert i newLocality => (∀ r < job.size, s.arrived r = true) ∧ av = job.addresses i ∧
      newLocality.fabricData = job.endpoint i
  | .done => av = job.addresses job.size
  | .terminated => True

/-- What holds of rank `t` throughout `boot_PMI`. -/
structure BootProcess.Inv (job : Job n) (t : ℕ) (s : PmiStore) (p : BootProcess n) : Prop where
  sound : s.Sound job
  rank : p.rank = t
  here : p.here.fabricData = job.endpoint t
  pc : p.pc.Inv job t s p.av

/-- What a process knows stays true while the store grows. -/
theorem BootPc.Inv.mono {pc : BootPc n} {av : List (FabricData n)} (hgrows : s.Grows job s')
    (h : pc.Inv job t s av) : pc.Inv job t s' av := by
  cases pc with
  | put | commit | done | terminated => exact h
  | fence | inFence => exact ⟨hgrows.kvs t h.1, h.2⟩
  | get i | insert i newLocality => exact ⟨fun r hr => hgrows.arrived r (h.1 r hr), h.2⟩

/-- What a process puts is the value of its rank, whatever the encoder's buffer held. -/
theorem BootProcess.Inv.encodedLocality (h : p.Inv job t s) (encBuf : Vector UInt8 3) :
    p.encodedLocality encBuf = job.published t := by
  rw [BootProcess.encodedLocality, base64Encode_eq, h.here, Job.published]

/-- All published values have the same length. -/
theorem Job.length_published (job : Job n) (r r' : ℕ) :
    (job.published r).length = (job.published r').length := by
  have hlength : ∀ i, (job.published i).length = 4 * ((n + 2) / 3) := by
    intro i
    rw [Job.published, ← base64Encode_eq (Vector.replicate 3 0), length_base64Encode,
      Vector.length_toList]
  rw [hlength, hlength]

/-- Past the fence a get receives the value of the rank asked for. -/
theorem BootProcess.Inv.received (h : p.Inv job t s) {i : ℕ} (hi : s.arrived i = true)
    (encBuf : Vector UInt8 3) (junk : List UInt8) :
    p.received job.variant encBuf junk (s.kvs (pmiKey i)) = some (job.published i) := by
  rw [h.sound.arrived i hi]
  cases job.variant with
  | pmix => rfl
  | pmi2 =>
    have hlen : (job.published t).length = (job.published i).length := job.length_published t i
    simp [BootProcess.received, h.encodedLocality, kvsGetString, hlen]

/-- Decoding a published value gives the address back. -/
theorem fabricData_receivedLocality (decBuf : Vector UInt8 4) (r i : ℕ) :
    (receivedLocality decBuf (job.published r) i).fabricData = job.endpoint r := by
  have hdecode : base64Decode decBuf (job.published r) = (job.endpoint r).toList := by
    rw [Job.published, ← base64Encode_eq (Vector.replicate 3 0), base64Decode_base64Encode]
  rw [receivedLocality, hdecode]
  exact Locality.fabricData_copyData _ _

/-- The addresses of the ranks up to `i`. -/
theorem Job.addresses_succ (job : Job n) (i : ℕ) :
    job.addresses (i + 1) = job.addresses i ++ [job.endpoint i] := by
  simp [addresses, List.range_succ]

/-- What an insertion that returns has made of the address vector. -/
theorem BootProcess.Inv.afterInsert (h : p.Inv job t s) {i : ℕ} {newLocality : Locality n}
    (hpc : p.pc = .insert i newLocality) (answer : AvAnswer) :
    (p.afterInsert i (insertAddress job.size p.av newLocality answer)).Inv job t s := by
  have hinv := h.pc
  rw [hpc] at hinv
  obtain ⟨harrived, hav, hdata⟩ := hinv
  cases hins : insertAddress job.size p.av newLocality answer with
  | none => exact ⟨h.sound, h.rank, h.here, trivial⟩
  | some result =>
    obtain ⟨inserted, av'⟩ := result
    obtain ⟨hav', -, -⟩ := insertAddress_eq_some hins
    refine ⟨h.sound, h.rank, h.here, harrived, ?_⟩
    rw [job.addresses_succ, ← hdata, ← hav, ← hav']
    rfl

/-- A step of a process keeps what holds of it, and makes the store grow. -/
theorem BootProcess.Inv.step (h : p.Inv job t s) (hstep : BootStep job t s p s' p') :
    p'.Inv job t s' ∧ s.Grows job s' := by
  have hinv := h.pc
  obtain rfl : p.rank = t := h.rank
  cases hstep with
  | put encBuf hpc =>
    rw [hpc] at hinv
    rw [h.encodedLocality]
    cases job.variant with
    | pmi2 =>
      -- a put of PMI2 is seen at once, one of PMIx after the commit
      have hkvs := s.publish_kvs_self job p.rank
      exact ⟨⟨h.sound.publish, rfl, h.here, hkvs, hinv⟩, .publish⟩
    | pmix => exact ⟨⟨h.sound, rfl, h.here, rfl, hinv⟩, .refl⟩
  | commit hpc =>
    rw [hpc] at hinv
    obtain ⟨rfl, hav⟩ := hinv
    have hkvs := s.publish_kvs_self job p.rank
    exact ⟨⟨h.sound.publish, rfl, h.here, hkvs, hav⟩, .publish⟩
  | enterFence hpc =>
    rw [hpc] at hinv
    refine ⟨⟨⟨h.sound.value, ?_⟩, rfl, h.here, hinv⟩, fun _ hk => hk, ?_⟩
    · -- the value of the rank that arrives is in the store
      intro r hr
      by_cases hrt : r = p.rank
      · exact hrt ▸ hinv.1
      · exact h.sound.arrived r (by simpa [hrt] using hr)
    · intro r hr
      by_cases hrt : r = p.rank
      · simp [hrt]
      · simpa [hrt] using hr
  | leaveFence hpc hall =>
    rw [hpc] at hinv
    exact ⟨⟨h.sound, rfl, h.here, hall, hinv.2⟩, .refl⟩
  | @getPeer i encBuf decBuf junk hpc hi hne =>
    rw [hpc] at hinv
    -- all ranks have arrived at the fence, so the value of rank `i` is there
    rw [h.received (hinv.1 i hi)]
    exact ⟨⟨h.sound, rfl, h.here, hinv.1, hinv.2, fabricData_receivedLocality _ _ _⟩, .refl⟩
  | getSelf hpc hi =>
    rw [hpc] at hinv
    refine ⟨⟨h.sound, rfl, h.here, hinv.1, hinv.2, ?_⟩, .refl⟩
    exact h.here
  | insert answer hpc => exact ⟨h.afterInsert hpc answer, .refl⟩
  | finish hpc =>
    rw [hpc] at hinv
    exact ⟨⟨h.sound, rfl, h.here, hinv.2⟩, .refl⟩
  | fail => exact ⟨⟨h.sound, rfl, h.here, trivial⟩, .refl⟩

end Process

/-! ### Runs of the whole job -/

section Runs

variable {job : Job n} {c : Config PmiStore (BootProcess n)}

/-- Before the first step nothing is in the store and every address vector is empty. -/
theorem BootProcess.Inv.start (hinit : (bootSystem job).init c) {t : ℕ} {p : BootProcess n}
    (hget : c.threads[t]? = some p) : p.Inv job t c.shared := by
  obtain ⟨hshared, hthreads⟩ := hinit
  rw [hthreads, List.getElem?_map] at hget
  obtain ⟨r, hr, rfl⟩ := Option.map_eq_some_iff.mp hget
  obtain ⟨-, rfl⟩ := List.getElem?_eq_some_iff.mp hr
  rw [List.getElem_range, hshared]
  exact ⟨⟨by simp, by simp⟩, rfl, rfl, rfl⟩

/-- Every process of every reachable configuration keeps its invariant. -/
theorem BootProcess.Inv.reachable (hc : (bootSystem job).Reachable c) (t : ℕ)
    (p : BootProcess n) (hget : c.threads[t]? = some p) : p.Inv job t c.shared := by
  refine hc.forall_threads (P := fun t s p => p.Inv job t s) ?_ ?_ ?_ t p hget
  · intro c hinit t p hget
    exact .start hinit hget
  · intro c t p s' p' _ _ h hstep
    exact (h.step hstep).1
  · intro c t r p q s' p' _ _ _ _ hp hq hstep
    have hstep' := hp.step hstep
    exact ⟨hstep'.1.sound, hq.rank, hq.here, hq.pc.mono hstep'.2⟩

/-- **Bootstrap agreement.** In every run of a job of any size, a process that has finished
`boot_PMI` has the address of each rank of the job, its own included, at the index of that
rank. -/
theorem addressVector_of_done (job : Job n) (c : Config PmiStore (BootProcess n))
    (hc : (bootSystem job).Reachable c) (t : ℕ) (p : BootProcess n)
    (hget : c.threads[t]? = some p) (hdone : p.pc = .done) :
    p.av.length = job.size ∧ ∀ i < job.size, p.av[i]? = some (job.endpoint i) := by
  have hav : p.av = job.addresses job.size := by
    have hinv := (BootProcess.Inv.reachable hc t p hget).pc
    rwa [hdone] at hinv
  constructor
  · simp [hav, Job.addresses]
  · intro i hi
    simp [hav, Job.addresses, hi]

end Runs

/-- Two ranks with different addresses. -/
def pairJob : Job 8 where
  variant := .pmi2
  size := 2
  size_lt := by decide
  endpoint r := Vector.replicate 8 (10 + r.toUInt8)

/-- A run of `pairJob` in which rank 0 finishes. -/
theorem addressVector_of_done_pairJob :
    ∃ c p, (bootSystem pairJob).Reachable c ∧ c.threads[0]? = some p ∧ p.pc = .done ∧
      p.av.length = pairJob.size ∧ ∀ i < pairJob.size, p.av[i]? = some (pairJob.endpoint i) := by
  let encBuf : Vector UInt8 3 := Vector.replicate 3 0
  let decBuf : Vector UInt8 4 := Vector.replicate 4 0
  have h0 : (bootSystem pairJob).Reachable ⟨⟨fun _ => none, fun _ => false⟩,
    [BootProcess.start pairJob 0, BootProcess.start pairJob 1]⟩ := .start ⟨rfl, rfl⟩
  have h1 := h0.next 0 rfl (.put encBuf rfl)
  have h2 := h1.next 1 rfl (.put encBuf rfl)
  have h3 := h2.next 0 rfl (.enterFence rfl)
  have h4 := h3.next 1 rfl (.enterFence rfl)
  have h5 := h4.next 0 rfl (.leaveFence rfl (by decide))
  have h6 := h5.next 0 rfl (.getSelf rfl (by decide))
  have h7 := h6.next 0 rfl (.insert .inserted rfl)
  have h8 := h7.next 0 rfl (.getPeer (i := 1) encBuf decBuf [] rfl (by decide) (by decide))
  have h9 := h8.next 0 rfl (.insert .inserted rfl)
  have h10 := h9.next 0 rfl (.finish rfl)
  exact ⟨_, _, h10, rfl, rfl, addressVector_of_done pairJob _ h10 0 _ rfl rfl⟩

end LibFatbat
