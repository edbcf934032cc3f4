import Mathlib.Tactic.Common

/-!
# Programs that may not return

Straight-line code that changes a state and may end in an exception is a program in `EStateM`. These
lemmas take a run apart into the runs of its parts, and put one together.
-/

namespace Program

variable {ε σ α β : Type} {s s' : σ}

/-- A sequence returns when both parts do. -/
theorem bind_ok {x : EStateM ε σ α} {f : α → EStateM ε σ β} {b : β} :
    (x >>= f) s = .ok b s' ↔ ∃ a t, x s = .ok a t ∧ f a t = .ok b s' := by
  show EStateM.bind x f s = _ ↔ _
  unfold EStateM.bind
  cases x s with
  | ok a t => simp
  | error e t => simp

/-- After a first part that returns, a sequence goes on with the second. -/
theorem bind_of_ok {x : EStateM ε σ α} {f : α → EStateM ε σ β} {a : α} {t : σ}
    (h : x s = .ok a t) : (x >>= f) s = f a t := by
  show EStateM.bind x f s = _
  unfold EStateM.bind
  rw [h]

/-- After a first part that ends in an exception, a sequence goes on with nothing. -/
theorem bind_of_error {x : EStateM ε σ α} {f : α → EStateM ε σ β} {e : ε} {t : σ}
    (h : x s = .error e t) : (x >>= f) s = .error e t := by
  show EStateM.bind x f s = _
  unfold EStateM.bind
  rw [h]

/-- `return` changes nothing. -/
theorem pure_ok {a b : α} : (pure a : EStateM ε σ α) s = .ok b s' ↔ a = b ∧ s = s' := by
  show EStateM.Result.ok a s = _ ↔ _
  simp

/-- An exception does not return. -/
theorem throw_ok {e : ε} {a : α} : (throw e : EStateM ε σ α) s = .ok a s' ↔ False := by
  show EStateM.Result.error e s = _ ↔ _
  simp

/-- A change of the state returns the state changed. -/
theorem modify_ok {g : σ → σ} {a : Unit} :
    (modify g : EStateM ε σ Unit) s = .ok a s' ↔ g s = s' := by
  show EStateM.Result.ok () (g s) = _ ↔ _
  simp

/-- After a change of the state, a sequence goes on in the state changed. -/
theorem modify_bind {g : σ → σ} {f : Unit → EStateM ε σ β} : (modify g >>= f) s = f () (g s) :=
  rfl

end Program
