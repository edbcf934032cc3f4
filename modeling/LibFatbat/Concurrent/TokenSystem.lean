import Mathlib.Algebra.BigOperators.Group.Multiset.Basic
import Mathlib.Algebra.Order.BigOperators.Group.Multiset
import Mathlib.Logic.Relation
import LibFatbat.Concurrent.ThreadSystem

/-!
# Tokens moving over a shared state

A `TokenSystem` describes what can happen to a collection of tokens, one at a time: a token is
created, or it moves from one state to another, and both may change a shared state. Who moves a
token is left out, so a token system is the abstract model of threads that work on common
objects, each object in the hands of one thread at a time.

* `Reachable.conserved` and `Reachable.forall_tokens` are the proof rules for counts and for
  properties of single tokens.
* `ThreadSystem.Reachable.simulates` is the refinement rule: if every step of a thread moves
  tokens it has in its hands, or creates one, then every configuration that the threads reach is
  one that the tokens reach.
-/

namespace Concurrent

/-- A shared state and the tokens there are. -/
structure TokenConfig (σ τ : Type*) where
  shared : σ
  tokens : Multiset τ

/-- Tokens with states in `τ` over a shared state in `σ`. -/
structure TokenSystem (σ τ : Type*) where
  /-- The shared states to start from, without tokens. -/
  init : σ → Prop
  /-- `create s s' t`: the new token `t` appears. -/
  create : σ → σ → τ → Prop
  /-- `move s t s' t'`: a token goes from `t` to `t'`. -/
  move : σ → τ → σ → τ → Prop

namespace TokenSystem

variable {σ τ : Type*} {T : TokenSystem σ τ} {c c' : TokenConfig σ τ}

/-- One step of one token. -/
inductive Step (T : TokenSystem σ τ) : TokenConfig σ τ → TokenConfig σ τ → Prop
  | create {s s' : σ} {t : τ} {R : Multiset τ} (h : T.create s s' t) :
      Step T ⟨s, R⟩ ⟨s', t ::ₘ R⟩
  | move {s s' : σ} {t t' : τ} {R : Multiset τ} (h : T.move s t s' t') :
      Step T ⟨s, t ::ₘ R⟩ ⟨s', t' ::ₘ R⟩

/-- Any number of steps. -/
abbrev Steps (T : TokenSystem σ τ) : TokenConfig σ τ → TokenConfig σ τ → Prop :=
  Relation.ReflTransGen T.Step

/-- The configurations that a run reaches. -/
inductive Reachable (T : TokenSystem σ τ) : TokenConfig σ τ → Prop
  | start {s : σ} (h : T.init s) : Reachable T ⟨s, 0⟩
  | step {c c' : TokenConfig σ τ} (hc : Reachable T c) (h : T.Step c c') : Reachable T c'

theorem Reachable.steps (hc : T.Reachable c) (h : T.Steps c c') : T.Reachable c' := by
  induction h with
  | refl => exact hc
  | tail _ h ih => exact .step ih h

/-- A token moves, whatever the order in which the tokens are listed. -/
theorem Steps.of_move {s s' : σ} {t t' : τ} {A A' R : Multiset τ} (h : T.move s t s' t')
    (hA : A = t ::ₘ R) (hA' : A' = t' ::ₘ R) : T.Steps ⟨s, A⟩ ⟨s', A'⟩ := by
  rw [hA, hA']
  exact .single (.move h)

/-- A quantity of which `f` is in the shared state and `w` in each token stays equal to `total` if
every creation and every move keeps its own balance. -/
theorem Reachable.conserved (f total : σ → ℕ) (w : τ → ℕ)
    (hinit : ∀ s, T.init s → f s = total s)
    (hcreate : ∀ s s' t, T.create s s' t → f s' + w t + total s = f s + total s')
    (hmove : ∀ s s' t t' R, T.Reachable ⟨s, t ::ₘ R⟩ → T.move s t s' t' →
      f s' + w t' + total s = f s + w t + total s')
    (hc : T.Reachable c) : f c.shared + (c.tokens.map w).sum = total c.shared := by
  induction hc with
  | start h => simpa using hinit _ h
  | step hc h ih =>
    cases h with
    | create h =>
      have hbal := hcreate _ _ _ h
      simp only [Multiset.map_cons, Multiset.sum_cons] at ih ⊢
      omega
    | move h =>
      have hbal := hmove _ _ _ _ _ hc h
      simp only [Multiset.map_cons, Multiset.sum_cons] at ih ⊢
      omega

/-- A property of a token and the shared state holds of every token if it holds of new ones, a
token keeps it when it moves, and it is stable when others are created or move. -/
theorem Reachable.forall_tokens {P : σ → τ → Prop}
    (hnew : ∀ s s' t, T.create s s' t → P s' t)
    (hcreate : ∀ s s' t u, T.create s s' t → P s u → P s' u)
    (hown : ∀ s s' t t' R, T.Reachable ⟨s, t ::ₘ R⟩ → P s t → T.move s t s' t' → P s' t')
    (hother : ∀ s s' t t' u R, T.Reachable ⟨s, t ::ₘ u ::ₘ R⟩ → P s t → P s u →
      T.move s t s' t' → P s' u)
    (hc : T.Reachable c) : ∀ t ∈ c.tokens, P c.shared t := by
  induction hc with
  | start h => simp
  | step hc h ih =>
    cases h with
    | create h =>
      intro u hu
      rcases Multiset.mem_cons.mp hu with rfl | hu
      · exact hnew _ _ _ h
      · exact hcreate _ _ _ _ h (ih u hu)
    | @move s s' t t' R h =>
      intro u hu
      rcases Multiset.mem_cons.mp hu with rfl | hu
      · exact hown _ _ _ _ _ hc (ih t (Multiset.mem_cons_self t R)) h
      · obtain ⟨Q, rfl⟩ := Multiset.exists_cons_of_mem hu
        exact hother _ _ _ _ _ _ hc (ih t (Multiset.mem_cons_self t _))
          (ih u (Multiset.mem_cons_of_mem (Multiset.mem_cons_self u Q))) h

/-- A property of the shared state that every step keeps. -/
theorem Reachable.shared_invariant {I : σ → Prop} (hinit : ∀ s, T.init s → I s)
    (hcreate : ∀ s s' t, T.create s s' t → I s → I s')
    (hmove : ∀ s s' t t' R, T.Reachable ⟨s, t ::ₘ R⟩ → I s → T.move s t s' t' → I s')
    (hc : T.Reachable c) : I c.shared := by
  induction hc with
  | start h => exact hinit _ h
  | step hc h ih =>
    cases h with
    | create h => exact hcreate _ _ _ h ih
    | move h => exact hmove _ _ _ _ _ hc ih h

end TokenSystem

namespace ThreadSystem

variable {σ τ ρ κ : Type*} {S : ThreadSystem σ τ} {T : TokenSystem ρ κ} {c : Config σ τ}

/-- Replacing one thread's local state exchanges what the thread holds. -/
theorem sum_map_set_multiset {ts : List τ} {i : ℕ} {l : τ} (held : τ → Multiset κ)
    (h : ts[i]? = some l) (l' : τ) :
    ∃ R, (ts.map held).sum = held l + R ∧ ((ts.set i l').map held).sum = held l' + R := by
  induction ts generalizing i with
  | nil => simp at h
  | cons t ts ih =>
    cases i with
    | zero =>
      obtain rfl : t = l := by simpa using h
      exact ⟨(ts.map held).sum, by simp, by simp⟩
    | succ i =>
      obtain ⟨R, hR, hR'⟩ := ih (i := i) (by simpa using h)
      refine ⟨held t + R, ?_, ?_⟩
      · rw [List.map_cons, List.sum_cons, hR, add_left_comm]
      · rw [List.set_cons_succ, List.map_cons, List.sum_cons, hR', add_left_comm]

/-- What the threads reach the tokens reach, where the tokens are those in the shared state,
`own`, and those in the hands of the threads, `held`. -/
theorem Reachable.simulates (core : σ → ρ) (own : σ → Multiset κ) (held : τ → Multiset κ)
    (hinit : ∀ c, S.init c → T.init (core c.shared) ∧ own c.shared = 0 ∧
      (c.threads.map held).sum = 0)
    (hstep : ∀ c i l s' l', S.Reachable c → c.threads[i]? = some l →
      S.step i c.shared l s' l' → ∀ R, T.Steps ⟨core c.shared, own c.shared + held l + R⟩
        ⟨core s', own s' + held l' + R⟩)
    (hc : S.Reachable c) :
    T.Reachable ⟨core c.shared, own c.shared + (c.threads.map held).sum⟩ := by
  refine hc.invariant (I := fun c =>
    T.Reachable ⟨core c.shared, own c.shared + (c.threads.map held).sum⟩) ?_ ?_
  · intro c h
    obtain ⟨h₁, h₂, h₃⟩ := hinit c h
    rw [h₂, h₃, add_zero]
    exact .start h₁
  · rintro c _ hreach ih (@⟨l, l', s', i, hget, h⟩)
    obtain ⟨R, hR, hR'⟩ := sum_map_set_multiset held hget l'
    rw [hR, ← add_assoc] at ih
    show T.Reachable ⟨core s', own s' + ((c.threads.set i l').map held).sum⟩
    rw [hR', ← add_assoc]
    exact ih.steps (hstep _ _ _ _ _ hreach hget h R)

end ThreadSystem

end Concurrent
