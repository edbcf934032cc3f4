import LibFatbat.Communicator.Refinement

/-!
# Operation contexts

Where an operation context can be: in the free list, deleted, with an operation in flight, in the
hands of a frame that posts or handles its operation (a running callback among them), or abandoned
by an exception. `contexts_ownedOnce`: every context made is in one of these places, once, in every
interleaving, and it is deleted only if its push to the free list failed; without exceptions none is
abandoned.
-/

open Concurrent

namespace LibFatbat

variable {cfg : Setup} {c : Config Shared (List Frame)}

/-! ### Places -/

/-- The contexts of operations. -/
def contextsOf (ts : Multiset Token) : Multiset ℕ := ts.filterMap Token.ctx

/-- The contexts in the hands of a frame: of the operation that it posts or handles, and of those
in the entries that it has read. -/
def Frame.contexts (f : Frame) : Multiset ℕ := contextsOf f.tokens

/-- The contexts in the hands of threads. -/
def heldContexts (c : Config Shared (List Frame)) : Multiset ℕ :=
  (c.threads.map fun stack => (stack.map Frame.contexts).sum).sum

/-- The contexts of operations that the provider has accepted and not reported. -/
def inflightContexts (c : Config Shared (List Frame)) : Multiset ℕ := c.shared.inflight.map Op.ctx

/-- The contexts of operations that an exception took out of the hands of a thread. -/
def abandonedContexts (c : Config Shared (List Frame)) : Multiset ℕ := contextsOf c.shared.retired

/-- Every context is in one place. -/
structure OwnedOnce (c : Config Shared (List Frame)) : Prop where
  place (a : ℕ) : c.shared.core.freeList.count a + c.shared.core.deleted.count a +
    (inflightContexts c).count a + (heldContexts c).count a + (abandonedContexts c).count a =
      if a < c.shared.core.nextCtx then 1 else 0
  /-- What a thread posts or handles, or whose callback it runs, no one else has. -/
  held (a : ℕ) (ha : a ∈ heldContexts c) : (heldContexts c).count a = 1 ∧
    a ∉ c.shared.core.freeList ∧ a ∉ c.shared.core.deleted ∧ a ∉ inflightContexts c
  /-- What `acquire_from_pool` hands out no one has. -/
  acquired : c.shared.core.acquireFromPool.1 ∉ heldContexts c ∧
    c.shared.core.acquireFromPool.1 ∉ inflightContexts c ∧
    c.shared.core.acquireFromPool.1 ∉ abandonedContexts c ∧
    c.shared.core.acquireFromPool.1 ∉ c.shared.core.deleted ∧
    c.shared.core.acquireFromPool.1 ∉ c.shared.core.acquireFromPool.2.freeList
  /-- Deleted is what could not be pushed to the free list. -/
  deleted (a : ℕ) : a ∈ c.shared.core.deleted ↔ .pushed a false ∈ c.shared.core.log
  /-- Once nothing is in flight or in the hands of a thread, every context made is back in the free
  list, or deleted when the push failed. -/
  back (hinflight : c.shared.inflight = 0) (hheld : heldContexts c = 0)
    (hkept : abandonedContexts c = 0) (a : ℕ) (ha : a < c.shared.core.nextCtx) :
    (.pushed a false ∉ c.shared.core.log →
      c.shared.core.freeList.count a = 1 ∧ a ∉ c.shared.core.deleted) ∧
    (.pushed a false ∈ c.shared.core.log →
      c.shared.core.deleted.count a = 1 ∧ a ∉ c.shared.core.freeList)

/-! ### Proofs -/

theorem sum_owns (a : ℕ) (ts : Multiset Token) :
    (ts.map (Token.owns a)).sum = (contextsOf ts).count a := by
  induction ts using Multiset.induction_on with
  | empty => simp [contextsOf]
  | cons t ts ih =>
    rw [Multiset.map_cons, Multiset.sum_cons, ih]
    cases hctx : t.ctx with
    | none => simp [contextsOf, Token.owns, hctx]
    | some b =>
      have hcons : contextsOf (t ::ₘ ts) = b ::ₘ contextsOf ts :=
        Multiset.filterMap_cons_some _ _ _ hctx
      rw [hcons, Multiset.count_cons, Token.owns, hctx]
      by_cases hab : b = a
      · subst hab
        simp only [if_true]
        omega
      · simp [hab, Ne.symm hab]

@[simp]
theorem contextsOf_add (ts us : Multiset Token) :
    contextsOf (ts + us) = contextsOf ts + contextsOf us := Multiset.filterMap_add ..

theorem contextsOf_sum (l : List (Multiset Token)) :
    contextsOf l.sum = (l.map contextsOf).sum := by
  induction l with
  | nil => rfl
  | cons ts l ih => rw [List.sum_cons, contextsOf_add, ih, List.map_cons, List.sum_cons]

/-- The contexts that operations own are those in flight, in the hands of threads, or abandoned. -/
theorem contextsOf_tokens (c : Config Shared (List Frame)) :
    contextsOf (tokens c) = inflightContexts c + abandonedContexts c + heldContexts c := by
  have hinflight : contextsOf (c.shared.inflight.map Op.token) = inflightContexts c := by
    rw [contextsOf, Multiset.filterMap_map, inflightContexts, ← Multiset.filterMap_eq_map]
    rfl
  have hheld : contextsOf (c.threads.map stackTokens).sum = heldContexts c := by
    rw [contextsOf_sum, List.map_map]
    refine congrArg List.sum (List.map_congr_left fun stack _ => ?_)
    show contextsOf (stack.map Frame.tokens).sum = _
    rw [contextsOf_sum, List.map_map]
    rfl
  rw [tokens, Shared.tokens, contextsOf_add, contextsOf_add, hinflight, hheld]
  rfl

/-- A context made is in one of the places, once. -/
theorem places_eq (hc : (communicator cfg).Reachable c) (a : ℕ) :
    c.shared.core.freeList.count a + c.shared.core.deleted.count a +
      (inflightContexts c).count a + (heldContexts c).count a + (abandonedContexts c).count a =
        c.shared.core.made a := by
  have h := contexts_eq (reachable_lifecycle hc) a
  rw [sum_owns, contextsOf_tokens, Multiset.count_add, Multiset.count_add] at h
  simp only [Core.recycled] at h
  omega

theorem Core.made_le_one (s : Core) (a : ℕ) : s.made a ≤ 1 := by
  unfold made
  split <;> omega

theorem ownedOnce_of_reachable (hc : (communicator cfg).Reachable c) : OwnedOnce c where
  place := places_eq hc
  held a ha := by
    have hplaces := places_eq hc a
    have hmade := c.shared.core.made_le_one a
    have hpos := Multiset.count_pos.mpr ha
    rw [← List.count_eq_zero, ← List.count_eq_zero, ← Multiset.count_eq_zero]
    omega
  acquired := by
    have hplaces := places_eq hc c.shared.core.acquireFromPool.1
    have hmade := c.shared.core.made_le_one c.shared.core.acquireFromPool.1
    rw [← Multiset.count_eq_zero, ← Multiset.count_eq_zero, ← Multiset.count_eq_zero,
      ← List.count_eq_zero, ← List.count_eq_zero]
    cases hlist : c.shared.core.freeList with
    | nil =>
      -- a new context is not made yet, so it is in no place
      simp only [Core.acquireFromPool, hlist, List.count_nil, and_true] at hplaces ⊢
      simp only [Core.made, lt_irrefl, if_false] at hplaces
      omega
    | cons b rest =>
      -- the head of the free list is there once, and so nowhere else
      simp only [Core.acquireFromPool, hlist, List.count_cons_self] at hplaces hmade ⊢
      omega
  deleted := deleted_iff (reachable_lifecycle hc)
  back hinflight hheld hkept a ha := by
    have hplaces := places_eq hc a
    have hdeleted := deleted_iff (reachable_lifecycle hc) a
    simp only [inflightContexts, hinflight, hheld, hkept, Multiset.map_zero,
      Multiset.count_zero] at hplaces
    rw [Core.made, if_pos ha] at hplaces
    -- it is in one of the two lists, and the log says in which
    rw [← hdeleted, ← List.count_eq_zero, ← List.count_eq_zero]
    simp only [← List.count_pos_iff]
    omega

/-! ### Runs without exceptions -/

theorem abandonedContexts_eq_zero (hc : (exceptionFree cfg).Reachable c) :
    abandonedContexts c = 0 := by
  refine Multiset.eq_zero_of_forall_notMem fun a ha => ?_
  obtain ⟨t, ht, hctx⟩ := (Multiset.mem_filterMap _ _).mp ha
  rw [(retired_of_exceptionFree hc t ht).1] at hctx
  cases hctx

end LibFatbat
