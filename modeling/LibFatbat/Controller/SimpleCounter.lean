import Mathlib.Data.BitVec
import Mathlib.Tactic
import LibFatbat.Concurrent.ThreadSystem

/-!
# The counters

`simple_counter<T, true>` of `simple_counter.hpp`, over a `std::atomic<T>`, for an unsigned type of
any width. Any number of threads apply its operators. An operator is made of atomic accesses to
`value_`, between which other threads go on; the two increments read `value_` a second time for
what they return.

The postfix decrement subtracts the parameter that tells it from the prefix one, and that is zero.

Main result: `finalValue_iff`. The final value is that of an atomic integer if and only if the
number of postfix decrements is zero modulo `2 ^ w`.
-/

open Concurrent

namespace LibFatbat

variable {w : ℕ}

/-- An atomic access to `value_`. -/
inductive AtomicAccess (w : ℕ)
  | add (x : BitVec w)
  | sub (x : BitVec w)
  | load

/-- The value after an access. -/
def AtomicAccess.apply (value : BitVec w) : AtomicAccess w → BitVec w
  | .add x => value + x
  | .sub x => value - x
  | .load => value

/-! ### The operators -/

namespace SimpleCounter

/-- `operator++()`. -/
def preIncrement : List (AtomicAccess w) := [.add 1, .load]

/-- `operator++(int)`. -/
def postIncrement (_ : ℤ) : List (AtomicAccess w) := [.add 1, .load]

/-- `operator+=`. -/
def addAssign (rhs : BitVec w) : List (AtomicAccess w) := [.add rhs]

/-- `operator--()`. -/
def preDecrement : List (AtomicAccess w) := [.sub 1]

/-- `operator--(int x)`. -/
def postDecrement (x : ℤ) : List (AtomicAccess w) := [.sub (BitVec.ofInt w x)]

/-- `operator-=`. -/
def subAssign (rhs : BitVec w) : List (AtomicAccess w) := [.sub rhs]

end SimpleCounter

/-- The operations on a counter `c`. -/
inductive CounterOp (w : ℕ)
  /-- `++c`. -/
  | preIncrement
  /-- `c++`. -/
  | postIncrement
  /-- `c += x`. -/
  | addAssign (x : BitVec w)
  /-- `--c`. -/
  | preDecrement
  /-- `c--`. -/
  | postDecrement
  /-- `c -= x`. -/
  | subAssign (x : BitVec w)
  deriving DecidableEq

namespace CounterOp

/-- The operator that is called. The language passes zero for the parameter of a postfix one. -/
def accesses : CounterOp w → List (AtomicAccess w)
  | .preIncrement => SimpleCounter.preIncrement
  | .postIncrement => SimpleCounter.postIncrement 0
  | .addAssign x => SimpleCounter.addAssign x
  | .preDecrement => SimpleCounter.preDecrement
  | .postDecrement => SimpleCounter.postDecrement 0
  | .subAssign x => SimpleCounter.subAssign x

/-- What an operation adds to an atomic integer. -/
def delta : CounterOp w → BitVec w
  | .preIncrement | .postIncrement => 1
  | .addAssign x => x
  | .preDecrement | .postDecrement => -1
  | .subAssign x => -x

end CounterOp

/-! ### Threads -/

/-- A thread. -/
structure CounterThread (w : ℕ) where
  /-- The accesses that are left of the operation under way. -/
  pending : List (AtomicAccess w)
  /-- The operations that are left. -/
  program : List (CounterOp w)
  /-- What the operations returned, latest first. -/
  returned : List (BitVec w)

/-- The steps of a thread. -/
inductive CounterStep : BitVec w → CounterThread w → BitVec w → CounterThread w → Prop
  | call {value : BitVec w} {l : CounterThread w} {op : CounterOp w} {ops : List (CounterOp w)}
      (hpending : l.pending = []) (hprogram : l.program = op :: ops) :
      CounterStep value l value { l with pending := op.accesses, program := ops }
  | access {value : BitVec w} {l : CounterThread w} {a b : AtomicAccess w}
      {rest : List (AtomicAccess w)} (hpending : l.pending = a :: b :: rest) :
      CounterStep value l (a.apply value) { l with pending := b :: rest }
  -- The last access yields what the operator returns.
  | ret {value : BitVec w} {l : CounterThread w} {a : AtomicAccess w} (hpending : l.pending = [a]) :
      CounterStep value l (a.apply value)
        { l with pending := [], returned := a.apply value :: l.returned }

/-- A thread before its first operation. -/
def CounterThread.start (program : List (CounterOp w)) : CounterThread w := ⟨[], program, []⟩

/-- A thread that has come to its end. -/
def CounterThread.Done (l : CounterThread w) : Prop := l.pending = [] ∧ l.program = []

/-- Threads that use one counter. -/
def counterSystem (init : BitVec w) (programs : List (List (CounterOp w))) :
    ThreadSystem (BitVec w) (CounterThread w) where
  init c := c.shared = init ∧ c.threads = programs.map .start
  step _ := CounterStep

/-! ### What is still to be added -/

/-- What an access adds to the value. -/
def AtomicAccess.effect : AtomicAccess w → BitVec w
  | .add x => x
  | .sub x => -x
  | .load => 0

theorem AtomicAccess.apply_eq (a : AtomicAccess w) (value : BitVec w) :
    a.apply value = value + a.effect := by
  cases a with
  | add x => rfl
  | sub x => exact sub_eq_add_neg value x
  | load => exact (add_zero value).symm

/-- What an operation adds to the value. -/
def CounterOp.effect (op : CounterOp w) : BitVec w := (op.accesses.map AtomicAccess.effect).sum

/-- What a thread will still add to the value. -/
def CounterThread.remaining (l : CounterThread w) : BitVec w :=
  (l.pending.map AtomicAccess.effect).sum + (l.program.map CounterOp.effect).sum

/-- A step moves what is added from the thread to the value. -/
theorem CounterStep.balance {value value' : BitVec w} {l l' : CounterThread w}
    (h : CounterStep value l value' l') : value' + l'.remaining = value + l.remaining := by
  cases h with
  | call hpending hprogram =>
    -- what was left of the program is now left of the operation
    rw [CounterThread.remaining, CounterThread.remaining, hpending, hprogram, List.map_nil,
      List.sum_nil, zero_add, List.map_cons, List.sum_cons]
    rfl
  | @access a b rest hpending =>
    rw [CounterThread.remaining, CounterThread.remaining, hpending, List.map_cons (a := a),
      List.sum_cons, a.apply_eq, add_assoc, add_assoc]
  | @ret a hpending =>
    rw [CounterThread.remaining, CounterThread.remaining, hpending, List.map_cons, List.sum_cons,
      a.apply_eq, add_assoc, add_assoc]

variable {init : BitVec w} {programs : List (List (CounterOp w))}
  {c : Config (BitVec w) (CounterThread w)}

/-- The value and what is still to be added make the same sum all along a run. -/
theorem value_add_remaining (hc : (counterSystem init programs).Reachable c) :
    c.shared + (c.threads.map CounterThread.remaining).sum =
      init + (programs.flatten.map CounterOp.effect).sum := by
  refine hc.invariant (I := fun c => c.shared + (c.threads.map CounterThread.remaining).sum =
    init + (programs.flatten.map CounterOp.effect).sum) ?_ ?_
  · -- at the start nothing is under way
    rintro c ⟨hshared, hthreads⟩
    have hstart : CounterThread.remaining ∘ CounterThread.start =
        fun program : List (CounterOp w) => (program.map CounterOp.effect).sum := by
      funext program
      exact zero_add _
    rw [hshared, hthreads, List.map_map, hstart, List.map_flatten, List.sum_flatten, List.map_map]
    rfl
  · -- one thread steps, and what the others will add stays as it is
    rintro c _ - ih @⟨l, l', value', i, hget, h⟩
    have hbalance := CounterStep.balance h
    have hsum : ((c.threads.set i l').map CounterThread.remaining).sum =
        (c.threads.map CounterThread.remaining).sum + l'.remaining - l.remaining :=
      eq_sub_of_add_eq (ThreadSystem.sum_map_set CounterThread.remaining hget)
    show value' + ((c.threads.set i l').map CounterThread.remaining).sum = _
    rw [hsum, ← ih, ← sub_eq_zero]
    linear_combination hbalance

/-- An operation adds what it should, unless it is a postfix decrement, which adds nothing. -/
theorem CounterOp.effect_eq (op : CounterOp w) :
    op.effect = op.delta + if op = .postDecrement then 1 else 0 := by
  cases op <;> simp [effect, accesses, delta, AtomicAccess.effect, SimpleCounter.preIncrement,
    SimpleCounter.postIncrement, SimpleCounter.addAssign, SimpleCounter.preDecrement,
    SimpleCounter.postDecrement, SimpleCounter.subAssign]

/-- A program adds one for every postfix decrement more than it should. -/
theorem sum_effect (ops : List (CounterOp w)) : (ops.map CounterOp.effect).sum =
    (ops.map CounterOp.delta).sum + BitVec.ofNat w (ops.count .postDecrement) := by
  induction ops with
  | nil => simp
  | cons op ops ih =>
    rw [List.map_cons, List.sum_cons, ih, op.effect_eq, List.map_cons, List.sum_cons,
      List.count_cons, BitVec.ofNat_add]
    by_cases hop : op = .postDecrement
    · -- counted once more, and one too much is added
      simp only [hop, if_true, beq_self_eq_true]
      rw [add_add_add_comm, add_comm 1]
      rfl
    · simp only [hop, if_false, beq_iff_eq]
      rw [add_zero, BitVec.add_zero, add_assoc]

theorem ofNat_eq_zero_iff (n : ℕ) : BitVec.ofNat w n = 0 ↔ 2 ^ w ∣ n := by
  rw [← BitVec.toNat_inj, BitVec.toNat_ofNat, Nat.dvd_iff_mod_eq_zero]
  rfl

/-- When all threads have come to their end, the counter has the value that its operations should
give if and only if the number of postfix decrements is a multiple of `2 ^ w`. -/
theorem finalValue_iff (hc : (counterSystem init programs).Reachable c)
    (hdone : ∀ l ∈ c.threads, l.Done) :
    c.shared = init + (programs.flatten.map CounterOp.delta).sum ↔
      2 ^ w ∣ programs.flatten.count .postDecrement := by
  -- a thread at its end adds no more
  have hnone : (c.threads.map CounterThread.remaining).sum = 0 := by
    refine List.sum_eq_zero fun x hx => ?_
    obtain ⟨l, hl, rfl⟩ := List.mem_map.mp hx
    obtain ⟨hpending, hprogram⟩ := hdone l hl
    rw [CounterThread.remaining, hpending, hprogram]
    exact zero_add 0
  have hvalue := value_add_remaining hc
  rw [hnone, add_zero, sum_effect, ← add_assoc] at hvalue
  rw [hvalue, add_eq_left, ofNat_eq_zero_iff]

/-- Two threads increment the largest value and add five. -/
theorem finalValue_interleaved :
    ∃ c, (counterSystem (-1 : BitVec 32) [[.preIncrement], [.addAssign 5]]).Reachable c ∧
      (∀ l ∈ c.threads, l.Done) ∧ c.shared = 5#32 := by
  have h0 : (counterSystem (-1 : BitVec 32) [[.preIncrement], [.addAssign 5]]).Reachable
      ⟨-1, [.start [.preIncrement], .start [.addAssign 5]]⟩ := .start ⟨rfl, rfl⟩
  have h1 := h0.next 0 rfl (.call rfl rfl)
  have h2 := h1.next 0 rfl (.access rfl)
  have h3 := h2.next 1 rfl (.call rfl rfl)
  have h4 := h3.next 1 rfl (.ret rfl)
  -- the first thread returns the value that the second has left
  have h5 := h4.next 0 rfl (.ret rfl)
  have hdone : ∀ l ∈ [CounterThread.mk [] [] [5#32], ⟨[], [], [5#32]⟩], l.Done := by
    simp [CounterThread.Done]
  exact ⟨_, h5, hdone, (finalValue_iff h5 hdone).mpr (by decide)⟩

/-- A postfix decrement leaves the value as it was. -/
theorem postDecrement_nothing :
    ∃ c, (counterSystem 5#32 [[.postDecrement]]).Reachable c ∧ (∀ l ∈ c.threads, l.Done) ∧
      c.shared = 5#32 ∧
        c.shared ≠ 5#32 + ([CounterOp.postDecrement].map CounterOp.delta).sum := by
  have h0 : (counterSystem 5#32 [[.postDecrement]]).Reachable ⟨5#32, [.start [.postDecrement]]⟩ :=
    .start ⟨rfl, rfl⟩
  have h1 := h0.next 0 rfl (.call rfl rfl)
  have h2 := h1.next 0 rfl (.ret rfl)
  refine ⟨_, h2, ?_, rfl, by decide⟩
  simp [CounterThread.Done]

end LibFatbat
