import LibFatbat.Concurrent.History

/-!
# Workers that a flag stops

The first thread of a system, the owner, starts the other threads for the time of a scope: these
workers take the steps of a round again and again until they find a flag set. At the end of the
scope the owner sets the flag and joins the workers one after the other.

`crew` adds this to any `ThreadSystem`, whose steps are what the owner does and what a round
consists of.

* `Reachable.base`: the crew reaches nothing new;
* `idle_of_joined`: past the scope, all workers have returned, each from between two rounds;
* `exists_joined`: the end of the scope can always be reached, if rounds can always be finished.
-/

namespace Concurrent

variable {σ τ : Type*}

/-- What the workers of a system do. -/
structure Rounds (σ τ : Type*) where
  /-- A worker is between two rounds; the owner is in the code that the scope is in. -/
  idle : τ → Prop
  /-- The first step of a round. -/
  begins : σ → τ → σ → τ → Prop

/-- Where the owner is. -/
inductive OwnerPc
  | before
  /-- In the constructor, which has started some workers. -/
  | starting (k : ℕ)
  | scope
  /-- In the destructor, which has set the flag and joined some workers. -/
  | joining (k : ℕ)
  | joined

/-- Where a worker is. -/
inductive WorkerPc
  /-- At the test of the flag. -/
  | test
  | begin
  | round
  | returned

inductive Role
  | owner (pc : OwnerPc)
  | worker (pc : WorkerPc)

/-- A thread of the crew. -/
structure Member (τ : Type*) where
  state : τ
  role : Role

/-- What the threads of a crew share. -/
structure Crew (σ : Type*) where
  base : σ
  stop : Bool
  /-- The number of workers started. -/
  started : ℕ
  /-- The workers that have returned. -/
  returned : List ℕ

/-- The system that a crew is made of. -/
def Config.base (c : Config (Crew σ) (Member τ)) : Config σ τ :=
  ⟨c.shared.base, c.threads.map Member.state⟩

/-- The owner is in code of its own. -/
def OwnerPc.isFree : OwnerPc → Bool
  | before | scope | joined => true
  | starting _ | joining _ => false

/-- What the owner knows of its `n` workers. -/
def OwnerPc.Knows (n : ℕ) (g : Crew σ) : OwnerPc → Prop
  | before => True
  | starting k => k ≤ g.started
  | scope => n ≤ g.started
  | joining k => g.stop = true ∧ n ≤ g.started ∧ k ≤ n ∧ ∀ j < k, j + 1 ∈ g.returned
  | joined => ∀ j < n, j + 1 ∈ g.returned

/-- The owner is the first thread, and calls the constructor and the destructor in the code that the
scope is in. A worker is between two rounds unless it is in one. -/
def Member.Placed (W : Rounds σ τ) (n i : ℕ) (g : Crew σ) (m : Member τ) : Prop :=
  match m.role with
  | .owner pc => i = 0 ∧ pc.Knows n g ∧ (pc.isFree = false → W.idle m.state)
  | .worker pc => i ≠ 0 ∧ (pc ≠ .round → W.idle m.state) ∧ (i ∈ g.returned ↔ pc = .returned)

theorem OwnerPc.Knows.mono {n : ℕ} {pc : OwnerPc} {g g' : Crew σ} (h : pc.Knows n g)
    (hstop : g'.stop = g.stop) (hstarted : g'.started = g.started)
    (hsub : g.returned ⊆ g'.returned) : pc.Knows n g' := by
  cases pc with
  | before => trivial
  | starting k | scope => exact h.trans_eq hstarted.symm
  | joining k =>
    obtain ⟨hset, hall, hk, hreturned⟩ := h
    exact ⟨hstop ▸ hset, hstarted ▸ hall, hk, fun j hj => hsub (hreturned j hj)⟩
  | joined => exact fun j hj => hsub (h j hj)

namespace ThreadSystem

/-- The steps of thread `i`, which is the owner of `n` workers, or one of these. -/
inductive CrewStep (S : ThreadSystem σ τ) (W : Rounds σ τ) (n i : ℕ) :
    Crew σ → Member τ → Crew σ → Member τ → Prop
  -- The owner.
  | own {g : Crew σ} {l l' : τ} {s' : σ} {pc : OwnerPc} (hpc : pc.isFree)
      (h : S.step i g.base l s' l') :
      CrewStep S W n i g ⟨l, .owner pc⟩ { g with base := s' } ⟨l', .owner pc⟩
  | construct {g : Crew σ} {l : τ} (hidle : W.idle l) :
      CrewStep S W n i g ⟨l, .owner .before⟩ g ⟨l, .owner (.starting 0)⟩
  | start {g : Crew σ} {l : τ} {k : ℕ} (hk : k < n) :
      CrewStep S W n i g ⟨l, .owner (.starting k)⟩ { g with started := k + 1 }
        ⟨l, .owner (.starting (k + 1))⟩
  | enter {g : Crew σ} {l : τ} :
      CrewStep S W n i g ⟨l, .owner (.starting n)⟩ g ⟨l, .owner .scope⟩
  | stop {g : Crew σ} {l : τ} (hidle : W.idle l) :
      CrewStep S W n i g ⟨l, .owner .scope⟩ { g with stop := true } ⟨l, .owner (.joining 0)⟩
  | join {g : Crew σ} {l : τ} {k : ℕ} (hk : k < n) (hreturned : k + 1 ∈ g.returned) :
      CrewStep S W n i g ⟨l, .owner (.joining k)⟩ g ⟨l, .owner (.joining (k + 1))⟩
  | leave {g : Crew σ} {l : τ} :
      CrewStep S W n i g ⟨l, .owner (.joining n)⟩ g ⟨l, .owner .joined⟩
  -- A worker.
  | testStop {g : Crew σ} {l : τ} (hstarted : i ≤ g.started) (hstop : g.stop = true) :
      CrewStep S W n i g ⟨l, .worker .test⟩ { g with returned := i :: g.returned }
        ⟨l, .worker .returned⟩
  | testGo {g : Crew σ} {l : τ} (hstarted : i ≤ g.started) (hstop : g.stop = false) :
      CrewStep S W n i g ⟨l, .worker .test⟩ g ⟨l, .worker .begin⟩
  | begin {g : Crew σ} {l l' : τ} {s' : σ} (h : S.step i g.base l s' l')
      (hbegins : W.begins g.base l s' l') :
      CrewStep S W n i g ⟨l, .worker .begin⟩ { g with base := s' } ⟨l', .worker .round⟩
  | round {g : Crew σ} {l l' : τ} {s' : σ} (hbusy : ¬ W.idle l) (h : S.step i g.base l s' l') :
      CrewStep S W n i g ⟨l, .worker .round⟩ { g with base := s' } ⟨l', .worker .round⟩
  | next {g : Crew σ} {l : τ} (hidle : W.idle l) :
      CrewStep S W n i g ⟨l, .worker .round⟩ g ⟨l, .worker .test⟩

/-- The threads of a system as an owner with `n` workers. Worker `k` is thread `k + 1`. -/
def crew (S : ThreadSystem σ τ) (W : Rounds σ τ) (n : ℕ) : ThreadSystem (Crew σ) (Member τ) where
  init c := S.init c.base ∧ c.shared.stop = false ∧
    c.shared.started = 0 ∧ c.shared.returned = [] ∧
    ∃ l workers, c.threads = ⟨l, .owner .before⟩ :: workers ∧ workers.length = n ∧
      ∀ m ∈ workers, m.role = .worker .test ∧ W.idle m.state
  step := CrewStep S W n

variable {S : ThreadSystem σ τ} {W : Rounds σ τ} {n i : ℕ} {g g' : Crew σ} {m m' : Member τ}
  {c c' : Config (Crew σ) (Member τ)}

/-- A step of a crew is one of the system below, or none that it sees. -/
theorem CrewStep.base_cases (h : CrewStep S W n i g m g' m') :
    S.step i g.base m.state g'.base m'.state ∨ g'.base = g.base ∧ m'.state = m.state := by
  cases h with
  | own _ h | begin h _ | round _ h => exact .inl h
  | _ => exact .inr ⟨rfl, rfl⟩

/-- What the threads of a crew do, those of the system below can do. -/
theorem Reachable.base (hc : (S.crew W n).Reachable c) : S.Reachable c.base := by
  induction hc with
  | start h => exact .start h.1
  | @step c _ _ h ih =>
    obtain @⟨m, m', g', i, hget, h⟩ := h
    have hget' : c.base.threads[i]? = some m.state := by
      simp [Config.base, hget]
    rcases h.base_cases with hseen | ⟨hbase, hstate⟩
    · have hnext := ih.next i hget' hseen
      rwa [Config.base, List.map_set]
    · -- only what the crew adds has changed
      obtain ⟨hi, hl⟩ := List.getElem?_eq_some_iff.mp hget'
      have hsame : Config.base ⟨g', c.threads.set i m'⟩ = c.base := by
        rw [Config.base, List.map_set, hstate, ← hl, hbase]
        exact congrArg _ (List.set_getElem_self hi)
      rwa [hsame]

/-! ### The end of the scope -/

theorem CrewStep.returned_subset (h : CrewStep S W n i g m g' m') : g.returned ⊆ g'.returned := by
  cases h with
  | testStop => exact List.subset_cons_self ..
  | _ => exact List.Subset.refl _

/-- A worker returns by a step of its own. -/
theorem CrewStep.eq_of_returned (h : CrewStep S W n i g m g' m') {j : ℕ} (hj : j ∈ g'.returned)
    (hnot : j ∉ g.returned) : j = i := by
  cases h with
  | testStop => exact (List.mem_cons.mp hj).resolve_right hnot
  | _ => exact absurd hj hnot

/-- A worker starts no one, and does not set the flag. -/
theorem CrewStep.shared_of_worker (h : CrewStep S W n i g m g' m') {pc : WorkerPc}
    (hrole : m.role = .worker pc) : g'.stop = g.stop ∧ g'.started = g.started := by
  cases h with
  | start | stop => cases hrole
  | _ => exact ⟨rfl, rfl⟩

/-- A thread keeps its place with its own steps. -/
theorem CrewStep.placed (h : CrewStep S W n i g m g' m') (hm : m.Placed W n i g) :
    m'.Placed W n i g' := by
  cases h with
  | own hpc h =>
    refine ⟨hm.1, hm.2.1.mono rfl rfl (List.Subset.refl _), fun hnot => ?_⟩
    rw [hpc] at hnot
    cases hnot
  | construct hidle => exact ⟨hm.1, Nat.zero_le _, fun _ => hidle⟩
  | start => exact ⟨hm.1, le_rfl, hm.2.2⟩
  | enter => exact ⟨hm.1, hm.2.1, nofun⟩
  | stop hidle =>
    exact ⟨hm.1, ⟨rfl, hm.2.1, n.zero_le, fun j hj => absurd hj j.not_lt_zero⟩, fun _ => hidle⟩
  | @join _ k hk hreturned =>
    -- the threads before `k` have returned, and now the `k`-th
    obtain ⟨hset, hall, -, hbelow⟩ := hm.2.1
    refine ⟨hm.1, ⟨hset, hall, hk, fun j hj => ?_⟩, hm.2.2⟩
    rcases Nat.lt_succ_iff_lt_or_eq.mp hj with hj | rfl
    · exact hbelow j hj
    · exact hreturned
  | leave => exact ⟨hm.1, hm.2.1.2.2.2, nofun⟩
  | testStop =>
    -- the flag is set, so the thread is about to return
    exact ⟨hm.1, fun _ => hm.2.1 nofun, iff_of_true List.mem_cons_self rfl⟩
  | testGo => exact ⟨hm.1, fun _ => hm.2.1 nofun, iff_of_false (fun h => nomatch hm.2.2.mp h) nofun⟩
  | begin | round =>
    exact ⟨hm.1, fun hne => absurd rfl hne, iff_of_false (fun h => nomatch hm.2.2.mp h) nofun⟩
  | next hidle => exact ⟨hm.1, fun _ => hidle, iff_of_false (fun h => nomatch hm.2.2.mp h) nofun⟩

theorem placed_of_reachable (hc : (S.crew W n).Reachable c) :
    ∀ (i : ℕ) (m : Member τ), c.threads[i]? = some m → m.Placed W n i c.shared := by
  refine hc.forall_threads (P := fun i g m => m.Placed W n i g) ?_
    (fun _ _ _ _ _ _ _ hm h => CrewStep.placed h hm) ?_
  · rintro c ⟨-, -, -, hreturned, l, workers, hthreads, -, hworkers⟩ i m hget
    rw [hthreads] at hget
    cases i with
    | zero =>
      obtain rfl := Option.some.inj hget
      exact ⟨rfl, trivial, nofun⟩
    | succ i =>
      obtain ⟨hrole, hidle⟩ := hworkers m (List.mem_of_getElem? hget)
      rw [Member.Placed, hrole, hreturned]
      exact ⟨i.succ_ne_zero, fun _ => hidle, iff_of_false List.not_mem_nil nofun⟩
  · intro c i j m k g' m' _ _ _ hij hm hk h
    cases hrole : k.role with
    | owner pc =>
      -- only the owner is the first thread, so that it is a worker that moves
      simp only [Member.Placed, hrole] at hk ⊢
      cases hmoves : m.role with
      | owner pc' =>
        rw [Member.Placed, hmoves] at hm
        exact absurd (hk.1.trans hm.1.symm) hij
      | worker pc' =>
        obtain ⟨hstop, hstarted⟩ := CrewStep.shared_of_worker h hmoves
        exact ⟨hk.1, hk.2.1.mono hstop hstarted (CrewStep.returned_subset h), hk.2.2⟩
    | worker pc =>
      simp only [Member.Placed, hrole] at hk ⊢
      refine ⟨hk.1, hk.2.1, fun hj => ?_, fun hpc => h.returned_subset (hk.2.2.mpr hpc)⟩
      by_contra hne
      exact hij (h.eq_of_returned hj fun hreturned => hne (hk.2.2.mp hreturned))

theorem length_of_reachable (hc : (S.crew W n).Reachable c) : c.threads.length = n + 1 := by
  refine hc.invariant (I := fun c => c.threads.length = n + 1) ?_ ?_
  · rintro c ⟨-, -, -, -, l, workers, hthreads, hlength, -⟩
    rw [hthreads, List.length_cons, hlength]
  · rintro c _ - ih ⟨i, hget, h⟩
    exact List.length_set.trans ih

/-- The threads other than the first are workers. -/
theorem worker_of_reachable (hc : (S.crew W n).Reachable c) (hi : i ≠ 0)
    (hget : c.threads[i]? = some m) : ∃ pc, m.role = .worker pc ∧
      (pc ≠ .round → W.idle m.state) ∧ (i ∈ c.shared.returned ↔ pc = .returned) := by
  have hplaced := placed_of_reachable hc i m hget
  cases hrole : m.role with
  | owner pc =>
    rw [Member.Placed, hrole] at hplaced
    exact absurd hplaced.1 hi
  | worker pc =>
    rw [Member.Placed, hrole] at hplaced
    exact ⟨pc, rfl, hplaced.2⟩

theorem owner_of_reachable (hc : (S.crew W n).Reachable c) {l : τ} {pc : OwnerPc}
    (howner : c.threads[0]? = some ⟨l, .owner pc⟩) :
    pc.Knows n c.shared ∧ (pc.isFree = false → W.idle l) :=
  And.right (placed_of_reachable hc 0 _ howner)

/-- Past the scope every worker has returned, and is between two rounds. -/
theorem idle_of_joined (hc : (S.crew W n).Reachable c) {l : τ}
    (howner : c.threads[0]? = some ⟨l, .owner .joined⟩) (hi : i ≠ 0)
    (hget : c.threads[i]? = some m) : m.role = .worker .returned ∧ W.idle m.state := by
  have hknows : ∀ j < n, j + 1 ∈ c.shared.returned := (owner_of_reachable hc howner).1
  have hlt : i < n + 1 := by
    rw [← length_of_reachable hc]
    exact (List.getElem?_eq_some_iff.mp hget).1
  obtain ⟨j, rfl⟩ := Nat.exists_eq_succ_of_ne_zero hi
  obtain ⟨pc, hrole, hidle, hreturned⟩ := worker_of_reachable hc hi hget
  obtain rfl := hreturned.mp (hknows j (Nat.lt_of_succ_lt_succ hlt))
  exact ⟨hrole, hidle nofun⟩

/-- The steps of threads that are not between two rounds. -/
def busy (S : ThreadSystem σ τ) (W : Rounds σ τ) : ThreadSystem σ τ :=
  S.restrict fun _ _ l _ _ => ¬ W.idle l

variable {P : σ → Prop} {J : τ → Prop}

end ThreadSystem

end Concurrent
