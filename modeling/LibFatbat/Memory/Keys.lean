import Mathlib.Data.BitVec
import Mathlib.Data.List.Nodup
import Mathlib.Tactic
import LibFatbat.Concurrent.ThreadSystem

/-!
# The keys requested for memory regions

Memory is registered on two paths, `memory_region::register_memory` (which `make_region` calls) and
the constructor of `memory_segment`. Each has a static counter `key` of its own, whose value it
increments and passes on as `requested_key` of the `fi_mr_attr`. Threads do both at any time;
between the increment and the call of `fi_mr_regattr` anything may happen.

Main result: `requestedKeys_nodup_iff`. The keys requested are pairwise distinct as long as only one
of the paths is used, and no longer once both were used.
-/

open Concurrent

namespace LibFatbat

/-- The functions that register memory. -/
inductive RegistrationPath
  /-- `memory_region::register_memory`. -/
  | registerMemory
  /-- The constructor of `memory_segment`. -/
  | memorySegment
  deriving DecidableEq

/-- What registrations share. -/
structure KeyState where
  /-- The variable `key` of each function. -/
  key : RegistrationPath → BitVec 64
  /-- The number of registrations begun on each path. The code does not have it. -/
  begun : RegistrationPath → ℕ
  /-- The path and the `requested_key` of the calls of `fi_mr_regattr`, latest first. -/
  requested : List (RegistrationPath × BitVec 64)

namespace KeyState

/-- The state of a fresh process. -/
def start : KeyState where
  key _ := 0#64
  begun _ := 0
  requested := []

/-- `key++`. -/
def increment (s : KeyState) (path : RegistrationPath) : KeyState :=
  { s with key := Function.update s.key path (s.key path + 1#64)
           begun := Function.update s.begun path (s.begun path + 1) }

/-- `fi_mr_regattr`, as `region_provider::fi_register_memory` calls it. -/
def regattr (s : KeyState) (path : RegistrationPath) (requestKey : BitVec 64) : KeyState :=
  { s with requested := (path, requestKey) :: s.requested }

/-- The keys requested. -/
def requestedKeys (s : KeyState) : List (BitVec 64) := s.requested.map Prod.snd

/-- The number of registrations begun. -/
def total (s : KeyState) : ℕ := s.begun .registerMemory + s.begun .memorySegment

end KeyState

/-- Where a thread is: outside, or between `key++` and `fi_mr_regattr` with the value it got. -/
inductive RegistrationPc
  | outside
  | fetched (path : RegistrationPath) (requestKey : BitVec 64)
  deriving DecidableEq

/-- The steps of a registration. -/
inductive RegistrationStep : KeyState → RegistrationPc → KeyState → RegistrationPc → Prop
  | fetch {s : KeyState} (path : RegistrationPath) :
      RegistrationStep s .outside (s.increment path) (.fetched path (s.key path))
  | register {s : KeyState} {path : RegistrationPath} {requestKey : BitVec 64} :
      RegistrationStep s (.fetched path requestKey) (s.regattr path requestKey) .outside

/-- Any number of threads that register memory. -/
def registrationSystem : ThreadSystem KeyState RegistrationPc where
  init c := c.shared = .start ∧ ∀ l ∈ c.threads, l = .outside
  step _ := RegistrationStep

variable {c : Config KeyState RegistrationPc}

/-- A counter is the number of registrations begun on its path. -/
theorem key_eq_begun (hc : registrationSystem.Reachable c) (path : RegistrationPath) :
    c.shared.key path = BitVec.ofNat 64 (c.shared.begun path) := by
  refine hc.shared_invariant (I := fun s => s.key path = BitVec.ofNat 64 (s.begun path)) ?_ ?_
  · rintro c ⟨hstart, -⟩
    rw [hstart]
    rfl
  · intro i s l s' l' ih hstep
    cases hstep with
    | fetch path' =>
      by_cases hpath : path = path'
      · subst hpath
        simp [KeyState.increment, ih, BitVec.ofNat_add]
      · simp [KeyState.increment, Function.update_of_ne hpath, ih]
    | register => exact ih

/-- The values that the counter of a path has had. -/
def KeyState.handedOut (s : KeyState) (path : RegistrationPath) : List (BitVec 64) :=
  (List.range (s.begun path)).map (BitVec.ofNat 64)

/-- Whether a thread is about to request a key on a path. -/
def RegistrationPc.holds (path : RegistrationPath) (requestKey : BitVec 64) :
    RegistrationPc → ℕ
  | .outside => 0
  | .fetched path' requestKey' => if path' = path ∧ requestKey' = requestKey then 1 else 0

/-- An increment hands out the next value on its path and none on the other. -/
theorem count_handedOut_increment (s : KeyState) (path path' : RegistrationPath)
    (k : BitVec 64) :
    ((s.increment path').handedOut path).count k = (s.handedOut path).count k +
      (if path' = path ∧ BitVec.ofNat 64 (s.begun path') = k then 1 else 0) := by
  by_cases hpath : path' = path
  · subst hpath
    simp [KeyState.handedOut, KeyState.increment, List.range_succ, List.count_singleton]
  · simp [KeyState.handedOut, KeyState.increment, Function.update_of_ne (Ne.symm hpath), hpath]

/-- Every value handed out was requested or is about to be, on the same path. -/
theorem count_requested (hc : registrationSystem.Reachable c) (path : RegistrationPath)
    (k : BitVec 64) :
    c.shared.requested.count (path, k) + (c.threads.map (RegistrationPc.holds path k)).sum =
      (c.shared.handedOut path).count k := by
  refine hc.conserved (fun s => s.requested.count (path, k)) (fun s => (s.handedOut path).count k)
    (RegistrationPc.holds path k) ?_ ?_
  · -- nothing has been requested, and no thread has a key in hand
    rintro c ⟨hstart, hthreads⟩
    have hsum : (c.threads.map (RegistrationPc.holds path k)).sum = 0 := by
      refine List.sum_eq_zero fun n hn => ?_
      obtain ⟨l, hl, rfl⟩ := List.mem_map.mp hn
      rw [hthreads l hl]
      rfl
    rw [hsum, hstart]
    rfl
  · intro c i l s' l' hreach _ _ hstep
    cases hstep with
    | fetch path' =>
      -- the value taken from the counter goes to the thread
      have hkey := key_eq_begun hreach path'
      rw [count_handedOut_increment, RegistrationPc.holds, RegistrationPc.holds, hkey]
      simp only [KeyState.increment]
      omega
    | @register path' k' =>
      -- and from the thread to the request
      simp only [KeyState.regattr, KeyState.handedOut, RegistrationPc.holds, List.count_cons,
        beq_iff_eq, Prod.mk.injEq]
      omega

/-- Fewer than `2 ^ 64` values of a counter are distinct. -/
theorem nodup_handedOut {s : KeyState} (htotal : s.total < 2 ^ 64) (path : RegistrationPath) :
    (s.handedOut path).Nodup := by
  have hle : s.begun path ≤ s.total := by
    cases path <;> simp [KeyState.total]
  refine List.Nodup.map_on (fun a ha b hb hab => ?_) List.nodup_range
  have haLt := List.mem_range.mp ha
  have hbLt := List.mem_range.mp hb
  have htoNat := congrArg BitVec.toNat hab
  rwa [BitVec.toNat_ofNat, BitVec.toNat_ofNat, Nat.mod_eq_of_lt (by omega),
    Nat.mod_eq_of_lt (by omega)] at htoNat

/-- No key is requested twice on one path. -/
theorem nodup_requested (hc : registrationSystem.Reachable c)
    (htotal : c.shared.total < 2 ^ 64) : c.shared.requested.Nodup := by
  refine List.nodup_iff_count_le_one.mpr fun ⟨path, k⟩ => ?_
  have hcount := count_requested hc path k
  have hle := List.nodup_iff_count_le_one.mp (nodup_handedOut htotal path) k
  omega

/-- A key is requested on a path only if a registration was begun on it. -/
theorem begun_of_requested (hc : registrationSystem.Reachable c) {path : RegistrationPath}
    {k : BitVec 64} (h : (path, k) ∈ c.shared.requested) : 0 < c.shared.begun path := by
  have hcount := count_requested hc path k
  have hpos := List.count_pos_iff.mpr h
  have hmem : k ∈ c.shared.handedOut path := List.count_pos_iff.mp (by omega)
  obtain ⟨i, hi, -⟩ := List.mem_map.mp hmem
  exact lt_of_le_of_lt (Nat.zero_le i) (List.mem_range.mp hi)

/-- The first key requested on a path is 0. -/
theorem zero_requested (hc : registrationSystem.Reachable c)
    (houtside : ∀ l ∈ c.threads, l = .outside) {path : RegistrationPath}
    (h : 0 < c.shared.begun path) : (path, 0#64) ∈ c.shared.requested := by
  have hcount := count_requested hc path 0#64
  have hsum : (c.threads.map (RegistrationPc.holds path 0#64)).sum = 0 := by
    refine List.sum_eq_zero fun n hn => ?_
    obtain ⟨l, hl, rfl⟩ := List.mem_map.mp hn
    rw [houtside l hl]
    rfl
  have hmem : 0#64 ∈ c.shared.handedOut path :=
    List.mem_map.mpr ⟨0, List.mem_range.mpr h, rfl⟩
  have hpos := List.count_pos_iff.mpr hmem
  exact List.count_pos_iff.mp (by omega)

/-- As long as no more than one of the two paths was used, the keys requested are pairwise distinct,
at any moment of any interleaving. When no registration is in progress, that is also necessary. -/
theorem requestedKeys_nodup_iff (hc : registrationSystem.Reachable c)
    (htotal : c.shared.total < 2 ^ 64) :
    ((c.shared.begun .registerMemory = 0 ∨ c.shared.begun .memorySegment = 0) →
        c.shared.requestedKeys.Nodup) ∧
      ((∀ l ∈ c.threads, l = .outside) → c.shared.requestedKeys.Nodup →
        c.shared.begun .registerMemory = 0 ∨ c.shared.begun .memorySegment = 0) := by
  constructor
  · intro hone
    refine List.Nodup.map_on ?_ (nodup_requested hc htotal)
    rintro ⟨path, k⟩ hk ⟨path', k'⟩ hk' rfl
    -- Two paths with the same key would both have been used.
    have hpath : path = path' := by
      have hbegun := begun_of_requested hc hk
      have hbegun' := begun_of_requested hc hk'
      cases path <;> cases path' <;> first | rfl | (exfalso; omega)
    rw [hpath]
  · intro houtside hnodup
    by_contra hboth
    obtain ⟨hfirst, hsecond⟩ := not_or.mp hboth
    have hzero := zero_requested hc houtside (Nat.pos_of_ne_zero hfirst)
    have hzero' := zero_requested hc houtside (Nat.pos_of_ne_zero hsecond)
    exact absurd (List.inj_on_of_nodup_map hnodup hzero hzero' rfl) (by decide)

/-- The state when one thread has registered on the path given after what came before. -/
theorem reachable_registers {s : KeyState} (hc : registrationSystem.Reachable ⟨s, [.outside]⟩)
    (path : RegistrationPath) :
    registrationSystem.Reachable ⟨(s.increment path).regattr path (s.key path), [.outside]⟩ :=
  (hc.next 0 rfl (.fetch path)).next 0 rfl .register

/-- The state of a process with one thread. -/
theorem reachable_one_thread : registrationSystem.Reachable ⟨.start, [.outside]⟩ :=
  .start ⟨rfl, by simp⟩

/-- Two segments of one process ask for different keys. -/
theorem requestedKeys_two_segments :
    ∃ c, registrationSystem.Reachable c ∧ c.shared.total < 2 ^ 64 ∧
      c.shared.requested = [(.memorySegment, 1#64), (.memorySegment, 0#64)] ∧
      c.shared.requestedKeys.Nodup := by
  have htwo := reachable_registers (reachable_registers reachable_one_thread .memorySegment)
    .memorySegment
  exact ⟨_, htwo, by decide, rfl, (requestedKeys_nodup_iff htwo (by decide)).1 (.inl rfl)⟩

/-- A segment and a region of one process ask for the same key. -/
theorem requestedKeys_clash :
    ∃ c, registrationSystem.Reachable c ∧ c.shared.total < 2 ^ 64 ∧
      c.shared.requested = [(.registerMemory, 0#64), (.memorySegment, 0#64)] ∧
      ¬c.shared.requestedKeys.Nodup :=
  ⟨_, reachable_registers (reachable_registers reachable_one_thread .memorySegment)
    .registerMemory, by decide, rfl, by decide⟩

end LibFatbat
