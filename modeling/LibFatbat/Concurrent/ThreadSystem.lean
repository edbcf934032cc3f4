import Mathlib.Algebra.BigOperators.Group.List.Basic
import Mathlib.Algebra.Order.BigOperators.Group.List
import Mathlib.Algebra.Order.Ring.Nat
import Mathlib.Logic.Relation
import Mathlib.Tactic.Common

/-!
# Threads interleaving over a shared state

A `ThreadSystem` is a family of threads, each with a local state, that take atomic steps on one
shared state. A run picks any thread at any time, so a property of every reachable
configuration is a property of every interleaving.

Three proof rules turn a statement about one step of one thread into a statement about runs:

* `Reachable.invariant`: an inductive invariant of the whole configuration;
* `Reachable.forall_threads`: a property of one thread and the shared state, kept by the
  thread's own steps and stable under the steps of the others;
* `Reachable.conserved`: a count held partly by the shared state and partly by the threads,
  which every single step keeps in balance.

`restrict` keeps only the steps that meet a condition, so that its reachable configurations are
those of the runs whose steps all meet it. `Alone` is a run of one thread while the others stand
still, of which particular runs are put together; in `Reachable.each` the threads take turns.
-/

namespace Concurrent

/-- The shared state and the local state of every thread. Thread `i` is `threads[i]`. -/
structure Config (σ τ : Type*) where
  /-- The state all threads read and write. -/
  shared : σ
  /-- The local state of each thread. -/
  threads : List τ

/-- Threads with local states in `τ` over a shared state in `σ`. -/
structure ThreadSystem (σ τ : Type*) where
  /-- The configurations a run may start from. -/
  init : Config σ τ → Prop
  /-- `step i s l s' l'`: thread `i` moves the shared state from `s` to `s'` and its own local
  state from `l` to `l'` in one atomic step. -/
  step : ℕ → σ → τ → σ → τ → Prop

namespace ThreadSystem

variable {σ τ : Type*} {S : ThreadSystem σ τ} {c c' : Config σ τ}

/-- One step of the whole system: some thread takes one of its steps. -/
inductive Step (S : ThreadSystem σ τ) : Config σ τ → Config σ τ → Prop
  | thread {c : Config σ τ} {l l' : τ} {s' : σ} (i : ℕ) (hget : c.threads[i]? = some l)
      (hstep : S.step i c.shared l s' l') : Step S c ⟨s', c.threads.set i l'⟩

/-- The configurations that a run reaches. -/
inductive Reachable (S : ThreadSystem σ τ) : Config σ τ → Prop
  | start {c : Config σ τ} (h : S.init c) : Reachable S c
  | step {c c' : Config σ τ} (hc : Reachable S c) (h : S.Step c c') : Reachable S c'

/-- A run goes on with a step of thread `i`. -/
theorem Reachable.next {l l' : τ} {s' : σ} (hc : S.Reachable c) (i : ℕ)
    (hget : c.threads[i]? = some l) (hstep : S.step i c.shared l s' l') :
    S.Reachable ⟨s', c.threads.set i l'⟩ :=
  .step hc (.thread i hget hstep)

/-- What holds initially and is kept by every step from a reachable configuration holds in
every reachable configuration. -/
theorem Reachable.invariant {I : Config σ τ → Prop} (hinit : ∀ c, S.init c → I c)
    (hstep : ∀ c c', S.Reachable c → I c → S.Step c c' → I c') (hc : S.Reachable c) : I c := by
  induction hc with
  | start h => exact hinit _ h
  | step hc h ih => exact hstep _ _ hc ih h

/-- A property of the shared state that every thread's step keeps. -/
theorem Reachable.shared_invariant {I : σ → Prop} (hinit : ∀ c, S.init c → I c.shared)
    (hstep : ∀ i s l s' l', I s → S.step i s l s' l' → I s') (hc : S.Reachable c) :
    I c.shared := by
  refine hc.invariant (I := fun c => I c.shared) hinit ?_
  rintro c _ - ih ⟨i, -, h⟩
  exact hstep _ _ _ _ _ ih h

/-- The local state of thread `j` after thread `i` has moved to `l'`: `l'` if `j` is `i`, and
otherwise what it was. -/
theorem getElem?_set_cases {ts : List τ} {i j : ℕ} {l' k : τ}
    (h : (ts.set i l')[j]? = some k) : j = i ∧ k = l' ∨ j ≠ i ∧ ts[j]? = some k := by
  by_cases hij : i = j
  · subst hij
    rw [List.getElem?_set_self'] at h
    cases hts : ts[i]? with
    | none => simp [hts] at h
    | some x =>
      rw [hts] at h
      exact .inl ⟨rfl, by simpa using h.symm⟩
  · rw [List.getElem?_set_ne hij] at h
    exact .inr ⟨fun he => hij he.symm, h⟩

/-- A property `P` of a thread and the shared state holds of every thread in every reachable
configuration if it holds initially, every thread's own step keeps it, and it is stable under
the steps of the other threads. -/
theorem Reachable.forall_threads {P : ℕ → σ → τ → Prop}
    (hinit : ∀ c, S.init c → ∀ i l, c.threads[i]? = some l → P i c.shared l)
    (hown : ∀ c i l s' l', S.Reachable c → c.threads[i]? = some l →
      P i c.shared l → S.step i c.shared l s' l' → P i s' l')
    (hother : ∀ c i j l k s' l', S.Reachable c → c.threads[i]? = some l →
      c.threads[j]? = some k → j ≠ i →
      P i c.shared l → P j c.shared k → S.step i c.shared l s' l' → P j s' k)
    (hc : S.Reachable c) : ∀ i l, c.threads[i]? = some l → P i c.shared l := by
  refine hc.invariant (I := fun c => ∀ i l, c.threads[i]? = some l → P i c.shared l) hinit ?_
  rintro c _ hreach ih ⟨i, hget, h⟩ j k hj
  rcases getElem?_set_cases hj with ⟨rfl, rfl⟩ | ⟨hne, hk⟩
  · exact hown _ _ _ _ _ hreach hget (ih _ _ hget) h
  · exact hother _ _ _ _ _ _ _ hreach hget hk hne (ih _ _ hget) (ih _ _ hk) h

section Conservation

/-- Replacing one thread's local state exchanges its share of a sum over the threads. -/
theorem sum_map_set {M : Type*} [AddCommMonoid M] {ts : List τ} {i : ℕ} {l l' : τ} (g : τ → M)
    (h : ts[i]? = some l) : ((ts.set i l').map g).sum + g l = (ts.map g).sum + g l' := by
  induction ts generalizing i with
  | nil => simp at h
  | cons t ts ih =>
    cases i with
    | zero =>
      obtain rfl : t = l := by simpa using h
      simp only [List.set_cons_zero, List.map_cons, List.sum_cons]
      rw [add_right_comm, add_comm (g l'), add_right_comm]
    | succ i =>
      have hrest := ih (i := i) (by simpa using h)
      simp only [List.set_cons_succ, List.map_cons, List.sum_cons]
      rw [add_assoc, hrest, add_assoc]

/-- One thread's share is at most the sum over the threads. -/
theorem le_sum_map {ts : List τ} {i : ℕ} {l : τ} (g : τ → ℕ) (h : ts[i]? = some l) :
    g l ≤ (ts.map g).sum :=
  List.single_le_sum (fun _ _ => Nat.zero_le _) _
    (List.mem_map_of_mem (List.mem_of_getElem? h))

/-- The shares of two different threads are together at most the sum over the threads. -/
theorem add_le_sum_map {ts : List τ} {i j : ℕ} {l k : τ} (g : τ → ℕ)
    (hi : ts[i]? = some l) (hj : ts[j]? = some k) (hij : i ≠ j) :
    g l + g k ≤ (ts.map g).sum := by
  induction ts generalizing i j with
  | nil => simp at hi
  | cons t ts ih =>
    simp only [List.map_cons, List.sum_cons]
    cases i with
    | zero =>
      obtain rfl : t = l := by simpa using hi
      cases j with
      | zero => exact absurd rfl hij
      | succ j =>
        have := le_sum_map g (i := j) (by simpa using hj)
        omega
    | succ i =>
      cases j with
      | zero =>
        obtain rfl : t = k := by simpa using hj
        have := le_sum_map g (i := i) (by simpa using hi)
        omega
      | succ j =>
        have := ih (i := i) (j := j) (by simpa using hi) (by simpa using hj) (by omega)
        omega

/-- What is there once is with one thread only. -/
theorem exists_of_sum_map_eq_one {ts : List τ} (g : τ → ℕ) (h : (ts.map g).sum = 1) :
    ∃ (i : ℕ) (l : τ), ts[i]? = some l ∧ g l = 1 ∧
      ∀ (j : ℕ) (k : τ), ts[j]? = some k → j ≠ i → g k = 0 := by
  have hne : ∃ l ∈ ts, g l ≠ 0 := by
    by_contra! hall
    have hzero : (ts.map g).sum = 0 := List.sum_eq_zero (by simpa using hall)
    omega
  obtain ⟨l, hl, hg⟩ := hne
  obtain ⟨i, hi⟩ := List.getElem?_of_mem hl
  have hle : g l ≤ (ts.map g).sum := le_sum_map g hi
  refine ⟨i, l, hi, by omega, fun j k hj hij => ?_⟩
  have hadd : g k + g l ≤ (ts.map g).sum := add_le_sum_map g hj hi hij
  omega

/-- A quantity that the shared state and the threads hold together, `f` of it in the shared
state and `g` of it in each thread, stays equal to `total` if every single step keeps its own
balance. The step starts in a reachable configuration where the thread's share is accounted
for. -/
theorem Reachable.conserved (f total : σ → ℕ) (g : τ → ℕ)
    (hinit : ∀ c, S.init c → f c.shared + (c.threads.map g).sum = total c.shared)
    (hstep : ∀ c i l s' l', S.Reachable c → c.threads[i]? = some l →
      f c.shared + g l ≤ total c.shared → S.step i c.shared l s' l' →
      f s' + g l' + total c.shared = f c.shared + g l + total s')
    (hc : S.Reachable c) : f c.shared + (c.threads.map g).sum = total c.shared := by
  refine hc.invariant (I := fun c => f c.shared + (c.threads.map g).sum = total c.shared)
    hinit ?_
  rintro c _ hreach ih (@⟨l, l', s', i, hget, h⟩)
  have hle : g l ≤ (c.threads.map g).sum := le_sum_map g hget
  have hbal : f s' + g l' + total c.shared = f c.shared + g l + total s' :=
    hstep _ _ _ _ _ hreach hget (by omega) h
  have hset : ((c.threads.set i l').map g).sum + g l = (c.threads.map g).sum + g l' :=
    sum_map_set g hget
  simp only at ih ⊢
  omega

end Conservation

section Restriction

/-- The system in which only the steps that meet `ok` are taken. -/
def restrict (S : ThreadSystem σ τ) (ok : ℕ → σ → τ → σ → τ → Prop) : ThreadSystem σ τ where
  init := S.init
  step i s l s' l' := S.step i s l s' l' ∧ ok i s l s' l'

/-- A run whose steps all meet a condition is a run. -/
theorem Reachable.of_restrict {ok : ℕ → σ → τ → σ → τ → Prop}
    (h : (S.restrict ok).Reachable c) : S.Reachable c := by
  induction h with
  | start h => exact .start h
  | step _ h ih =>
    obtain ⟨i, hget, hstep, -⟩ := h
    exact ih.next i hget hstep

end Restriction

section Alone

/-- Thread `i` takes any number of steps, from a shared and a local state to others. -/
def Alone (S : ThreadSystem σ τ) (i : ℕ) : σ × τ → σ × τ → Prop :=
  Relation.ReflTransGen fun x y => S.step i x.1 x.2 y.1 y.2

theorem Alone.refl (i : ℕ) (x : σ × τ) : S.Alone i x x := Relation.ReflTransGen.refl

/-- A thread alone takes one more step. -/
theorem Alone.step {i : ℕ} {x : σ × τ} {s s' : σ} {l l' : τ} (h : S.Alone i x (s, l))
    (hstep : S.step i s l s' l') : S.Alone i x (s', l') :=
  Relation.ReflTransGen.tail h hstep

theorem Alone.trans {i : ℕ} {x y z : σ × τ} (h : S.Alone i x y) (h' : S.Alone i y z) :
    S.Alone i x z :=
  Relation.ReflTransGen.trans h h'

/-- A run goes on with one thread alone. -/
theorem Reachable.alone {i : ℕ} {l : τ} {y : σ × τ} (hc : S.Reachable c)
    (hget : c.threads[i]? = some l) (h : S.Alone i (c.shared, l) y) :
    S.Reachable ⟨y.1, c.threads.set i y.2⟩ := by
  have hi : i < c.threads.length := (List.getElem?_eq_some_iff.mp hget).1
  induction h with
  | refl =>
    obtain ⟨-, rfl⟩ := List.getElem?_eq_some_iff.mp hget
    rw [List.set_getElem_self]
    exact hc
  | tail _ hstep ih =>
    have hnext := ih.next i (List.getElem?_set_self hi) hstep
    rw [List.set_set] at hnext
    exact hnext

/-- The threads run alone one after the other, each from the same kind of state. -/
theorem Reachable.each {P : τ → Prop} {Q : ℕ → τ → Prop} {I : ℕ → σ → Prop} (hc : S.Reachable c)
    (hI : I 0 c.shared) (hP : ∀ l ∈ c.threads, P l)
    (hrun : ∀ i s l, i < c.threads.length → I i s → P l →
      ∃ s' l', S.Alone i (s, l) (s', l') ∧ I (i + 1) s' ∧ Q i l') :
    ∃ c', S.Reachable c' ∧ c'.threads.length = c.threads.length ∧
      I c.threads.length c'.shared ∧ ∀ (i : ℕ) (l : τ), c'.threads[i]? = some l → Q i l := by
  -- by induction on the number of threads that have run, the others being where they were
  have hprefix : ∀ k ≤ c.threads.length, ∃ c', S.Reachable c' ∧
      c'.threads.length = c.threads.length ∧ I k c'.shared ∧
        (∀ (i : ℕ) (l : τ), i < k → c'.threads[i]? = some l → Q i l) ∧
          ∀ i, k ≤ i → c'.threads[i]? = c.threads[i]? := by
    intro k hk
    induction k with
    | zero => exact ⟨c, hc, rfl, hI, fun i _ hi => absurd hi i.not_lt_zero, fun _ _ => rfl⟩
    | succ k ih =>
      obtain ⟨c', hc', hlength, hI', hQ, hrest⟩ := ih (by omega)
      have hk' : k < c.threads.length := hk
      have hget := (hrest k le_rfl).trans (List.getElem?_eq_getElem hk')
      obtain ⟨s', l', hrun', hnext, hl'⟩ := hrun k c'.shared _ hk' hI' (hP _ (List.getElem_mem hk'))
      refine ⟨_, hc'.alone hget hrun', by simpa using hlength, hnext, ?_, ?_⟩
      · intro i l hi hl
        rcases getElem?_set_cases hl with ⟨rfl, rfl⟩ | ⟨hne, hl⟩
        · exact hl'
        · exact hQ i l (by omega) hl
      · intro i hi
        rw [List.getElem?_set_ne (by omega)]
        exact hrest i (by omega)
  obtain ⟨c', hc', hlength, hI', hQ, -⟩ := hprefix _ le_rfl
  refine ⟨c', hc', hlength, hI', fun i l hl => hQ i l ?_ hl⟩
  rw [← hlength]
  exact (List.getElem?_eq_some_iff.mp hl).1

end Alone

end ThreadSystem

end Concurrent
