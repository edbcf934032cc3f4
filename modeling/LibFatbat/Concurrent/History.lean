import LibFatbat.Concurrent.ThreadSystem

/-!
# Threads that carry more

The threads of one system may carry more local state than those of another and move like them
otherwise. By `Reachable.project` such a system reaches nothing new.

With `withHistory` each thread keeps a record of its past, which no step depends on, so that every
run has its history (`Reachable.exists_history`). It is what statements about two moments of one run
are made of; those that need no record of the moments between use `Steps`.

Two systems that take the same steps wherever one of them gets to have the same runs (`Agrees`).
-/

namespace Concurrent

variable {σ τ τ' γ : Type*}

/-- The same configuration, of which less is seen. -/
def Config.map (f : τ' → τ) (c : Config σ τ') : Config σ τ := ⟨c.shared, c.threads.map f⟩

namespace ThreadSystem

variable {S : ThreadSystem σ τ} {T : ThreadSystem σ τ'}

/-- A system whose steps are those of another, or steps that the other does not see, reaches what
the other reaches. -/
theorem Reachable.project (f : τ' → τ) (hinit : ∀ c, T.init c → S.init (c.map f))
    (hstep : ∀ i s l s' l', T.step i s l s' l' →
      S.step i s (f l) s' (f l') ∨ s' = s ∧ f l' = f l)
    {c : Config σ τ'} (hc : T.Reachable c) : S.Reachable (c.map f) := by
  induction hc with
  | start h => exact .start (hinit _ h)
  | @step c c' _ h ih =>
    obtain @⟨l, l', s', i, hget, h⟩ := h
    have hget' : (c.map f).threads[i]? = some (f l) := by
      simp [Config.map, hget]
    have hmap : Config.map f ⟨s', c.threads.set i l'⟩ = ⟨s', (c.map f).threads.set i (f l')⟩ := by
      simp [Config.map]
    rw [hmap]
    rcases hstep i _ _ _ _ h with hseen | ⟨rfl, hsame⟩
    · exact ih.next i hget' hseen
    · -- the thread's own state looks the same as before
      obtain ⟨hi, hl⟩ := List.getElem?_eq_some_iff.mp hget'
      rw [hsame, ← hl, List.set_getElem_self hi]
      exact ih

/-- The system in which each thread keeps a record, which its own steps change by `record`. -/
def withHistory (S : ThreadSystem σ τ) (start : γ) (record : σ → τ → σ → τ → γ → γ) :
    ThreadSystem σ (τ × γ) where
  init c := S.init (c.map Prod.fst) ∧ ∀ l ∈ c.threads, l.2 = start
  step i s l s' l' := S.step i s l.1 s' l'.1 ∧ l'.2 = record s l.1 s' l'.1 l.2

variable {start : γ} {record : σ → τ → σ → τ → γ → γ}

/-- Records change nothing. -/
theorem Reachable.of_withHistory {c : Config σ (τ × γ)}
    (hc : (S.withHistory start record).Reachable c) : S.Reachable (c.map Prod.fst) :=
  Reachable.project Prod.fst (fun _ h => And.left h) (fun _ _ _ _ _ h => .inl (And.left h)) hc

/-- Every run has its history. -/
theorem Reachable.exists_history {c : Config σ τ} (hc : S.Reachable c) :
    ∃ c' : Config σ (τ × γ), (S.withHistory start record).Reachable c' ∧ c'.map Prod.fst = c := by
  induction hc with
  | @start c h =>
    have hmap : Config.map Prod.fst ⟨c.shared, c.threads.map fun l => (l, start)⟩ = c := by
      simp [Config.map, Function.comp_def]
    refine ⟨⟨c.shared, c.threads.map fun l => (l, start)⟩, .start ⟨?_, ?_⟩, hmap⟩
    · rw [hmap]
      exact h
    intro l hl
    obtain ⟨_, -, rfl⟩ := List.mem_map.mp hl
    rfl
  | @step _ _ _ h ih =>
    obtain ⟨c', hc', rfl⟩ := ih
    obtain @⟨l, l', s', i, hget, h⟩ := h
    obtain ⟨⟨l, note⟩, hget', rfl⟩ := Option.map_eq_some_iff.mp
      ((List.getElem?_map ..).symm.trans hget)
    -- the same step, which the record cannot prevent
    have hstep : (S.withHistory start record).step i c'.shared (l, note) s'
        (l', record c'.shared l s' l' note) := ⟨h, rfl⟩
    refine ⟨_, hc'.next i hget' hstep, ?_⟩
    simp [Config.map]

section Runs

/-- What a run goes on to. -/
def Steps (S : ThreadSystem σ τ) : Config σ τ → Config σ τ → Prop := Relation.ReflTransGen S.Step

theorem Reachable.steps {c c' : Config σ τ} (hc : S.Reachable c) (h : S.Steps c c') :
    S.Reachable c' := by
  induction h with
  | refl => exact hc
  | tail _ hstep ih => exact .step ih hstep

/-- A run so far, to be followed from here. -/
theorem Reachable.steps_refl {c : Config σ τ} (_ : S.Reachable c) : S.Steps c c :=
  Relation.ReflTransGen.refl

/-- A run goes on with a step of thread `i`. -/
theorem Steps.next {c c' : Config σ τ} {l l' : τ} {s' : σ} (h : S.Steps c c') (i : ℕ)
    (hget : c'.threads[i]? = some l) (hstep : S.step i c'.shared l s' l') :
    S.Steps c ⟨s', c'.threads.set i l'⟩ :=
  Relation.ReflTransGen.tail h (.thread i hget hstep)

/-- A run goes on with one step, and then with others. -/
theorem Steps.head {c c' : Config σ τ} {l l' : τ} {s' : σ} (i : ℕ)
    (hget : c.threads[i]? = some l) (hstep : S.step i c.shared l s' l')
    (h : S.Steps ⟨s', c.threads.set i l'⟩ c') : S.Steps c c' :=
  Relation.ReflTransGen.head (.thread i hget hstep) h

/-- A run goes on with one thread alone. -/
theorem Steps.alone {c : Config σ τ} {i : ℕ} {l : τ} {y : σ × τ} (hget : c.threads[i]? = some l)
    (h : S.Alone i (c.shared, l) y) : S.Steps c ⟨y.1, c.threads.set i y.2⟩ := by
  have hi : i < c.threads.length := (List.getElem?_eq_some_iff.mp hget).1
  induction h with
  | refl =>
    obtain ⟨-, rfl⟩ := List.getElem?_eq_some_iff.mp hget
    rw [List.set_getElem_self]
    exact .refl
  | tail _ hstep ih =>
    have hnext := ih.tail (.thread i (List.getElem?_set_self hi) hstep)
    rw [List.set_set] at hnext
    exact hnext

/-- A relation between the shared states of two moments, if every step keeps it. -/
theorem Steps.shared_rel {R : σ → σ → Prop} (hrefl : ∀ s, R s s)
    (htrans : ∀ s₁ s₂ s₃, R s₁ s₂ → R s₂ s₃ → R s₁ s₃)
    (hstep : ∀ i s l s' l', S.step i s l s' l' → R s s') {c c' : Config σ τ}
    (h : S.Steps c c') : R c.shared c'.shared := by
  induction h with
  | refl => exact hrefl _
  | tail _ h ih =>
    obtain ⟨i, -, h⟩ := h
    exact htrans _ _ _ ih (hstep _ _ _ _ _ h)

end Runs

section Agrees

variable {S T : ThreadSystem σ τ} {c c' : Config σ τ}

/-- Two systems start alike, and take the same steps from where the first one gets to. -/
structure Agrees (S T : ThreadSystem σ τ) : Prop where
  init : ∀ c, S.init c ↔ T.init c
  step : ∀ c, S.Reachable c → ∀ (i : ℕ) (l : τ) (s' : σ) (l' : τ), c.threads[i]? = some l →
    (S.step i c.shared l s' l' ↔ T.step i c.shared l s' l')

theorem Agrees.reachable (h : S.Agrees T) (hc : S.Reachable c) : T.Reachable c := by
  induction hc with
  | start hinit => exact .start ((h.init _).mp hinit)
  | step hc hstep ih =>
    obtain ⟨i, hget, hstep⟩ := hstep
    exact ih.next i hget ((h.step _ hc i _ _ _ hget).mp hstep)

end Agrees

end ThreadSystem

end Concurrent
