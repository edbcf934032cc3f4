import LibFatbat.Collective.IterationLoop

/-!
# Events and data of an iteration

Whether the writes of an iteration, and the events that they generate, find the receiver in the same
iteration.

Main results:

* `IterInv.reachable` — in a run in which nothing arrives before the receiver is ready for it, every
  event posted is either on its way or was handled once, and nobody leaves an iteration before all
  its events were handled.
* `nothingLost` — in such a run every event is recorded by the callback of its own iteration, and no
  rank clears what a peer wrote in the same iteration.
-/

open Concurrent

namespace LibFatbat

/-! ### What is to be shown -/

/-- A main thread that is in an iteration or past it: `f` says from where on in the iteration. -/
def IterationRank.reached (l : IterationRank) (f : IterationPc → Bool) (k : ℕ) : Prop :=
  k < l.iteration ∨ k = l.iteration ∧ f l.pc = true

namespace IterationPc

/-- The callback of the iteration was installed. -/
def begun : IterationPc → Bool
  | .begin | .done => false
  | _ => true

/-- Buffer `r` was cleared. -/
def cleared (r : ℕ) : IterationPc → Bool
  | .begin | .done => false
  | .clear r' => r < r'
  | _ => true

/-- The write to rank `r` was posted. -/
def posted (r : ℕ) : IterationPc → Bool
  | .begin | .done | .clear _ => false
  | .post r' => r < r'
  | _ => true

/-- All events of the iteration were waited for. -/
def heard : IterationPc → Bool
  | .begin | .done | .clear _ | .post _ | .waitWrites | .waitEvents => false
  | _ => true

/-- The callback of the iteration is installed. -/
def listening : IterationPc → Bool
  | .begin | .done | .failed => false
  | _ => true

end IterationPc

/-- Every event handled was recorded by the callback of its own iteration, none is missing once the
iteration is over, and no buffer was cleared of what a peer had written in the same iteration. -/
def NothingLost (cfg : IterationSetup) (c : Config IterationShared IterationRank) : Prop :=
  ∀ (i : ℕ) (l : IterationRank), c.threads[i]? = some l →
    (∀ e ∈ l.handled, e.callback = some e.iteration ∧ e.recorded = true) ∧
      (cfg.test = .writedata → ∀ k < l.iteration, ∀ r < cfg.size, r ≠ i →
        ∃ e ∈ l.handled, e.src = r ∧ e.iteration = k) ∧
        ∀ x ∈ l.clears, x.found ≠ .data x.iteration

/-- What a step takes from the network finds the receiver ready: data the buffer cleared for the
iteration, an event the callback of the iteration installed or gone. The callback can read an
iteration of 32 bits only. -/
def InTime (i : ℕ) (s : IterationShared) (l : IterationRank) (s' : IterationShared)
    (_ : IterationRank) : Prop :=
  ∀ r k, (s'.net.count (.data r i k) < s.net.count (.data r i k) →
      l.reached (IterationPc.cleared r) k) ∧
    (s'.net.count (.event r i k) < s.net.count (.event r i k) →
      l.reached IterationPc.begun k ∧ k + 1 < 2 ^ 32)

/-! ### What holds in such a run -/

/-- The iterations of the events from each rank. -/
def IterationRank.heardFrom (l : IterationRank) (k : ℕ) : List ℕ :=
  (l.handled.filter (·.iteration = k)).map (·.src)

/-- What holds of rank `i`. -/
structure IterationRank.Inv (cfg : IterationSetup) (i : ℕ) (l : IterationRank) : Prop where
  others : ∀ e ∈ l.handled, e.src < cfg.size ∧ e.src ≠ i
  recorded : ∀ e ∈ l.handled, e.callback = some e.iteration ∧ e.recorded = true
  inTime : ∀ e ∈ l.handled, l.reached IterationPc.begun e.iteration
  listening : cfg.test = .writedata → l.pc.listening = true →
    l.callback = some l.iteration ∧ l.dataOk = true ∧ l.processed = (l.heardFrom l.iteration).length
  complete : cfg.test = .writedata → ∀ k, l.reached IterationPc.heard k →
    ∀ r < cfg.size, r ≠ i → r ∈ l.heardFrom k
  buffers : ∀ r k, l.buffers r = .data k → l.reached (IterationPc.cleared r) k
  clears : ∀ x ∈ l.clears, x.found ≠ .data x.iteration

/-- How many events rank `l` has generated with its write of an iteration to rank `r`. -/
def IterationRank.events (cfg : IterationSetup) (l : IterationRank) (r k : ℕ) : ℕ :=
  match cfg.test with
  | .writedata => if k < l.iteration ∨ k = l.iteration ∧ l.pc.posted r = true then 1 else 0
  | .write => 0

/-- What holds of a configuration. -/
structure IterInv (cfg : IterationSetup) (c : Config IterationShared IterationRank) : Prop where
  length : c.threads.length = cfg.size
  /-- Events are between different ranks of the job. -/
  net : ∀ r i k, .event r i k ∈ c.shared.net → r < cfg.size ∧ r ≠ i
  ranks : ∀ (i : ℕ) (l : IterationRank), c.threads[i]? = some l → l.Inv cfg i
  /-- An event generated is on its way, or was handled. -/
  balance : ∀ (i r : ℕ) (l m : IterationRank), c.threads[i]? = some l → c.threads[r]? = some m →
    r ≠ i → ∀ k, c.shared.net.count (.event r i k) + (l.heardFrom k).count r = m.events cfg i k

/-! ### The main thread and the poller of one rank -/

namespace IterationRank

variable {cfg : IterationSetup} {i : ℕ} {l l' : IterationRank}

theorem mem_heardFrom {r k : ℕ} :
    r ∈ l.heardFrom k ↔ ∃ e ∈ l.handled, e.src = r ∧ e.iteration = k := by
  simp only [heardFrom, List.mem_map, List.mem_filter, decide_eq_true_eq]
  constructor
  · rintro ⟨e, ⟨he, hk⟩, hr⟩
    exact ⟨e, he, hr, hk⟩
  · rintro ⟨e, he, hr, hk⟩
    exact ⟨e, ⟨he, hk⟩, hr⟩

/-- A main thread that goes on within the iteration loses nothing of what it has reached. -/
theorem reached.mono {f : IterationPc → Bool} {k : ℕ} (h : l.reached f k)
    (hiteration : l'.iteration = l.iteration) (hpc : f l.pc = true → f l'.pc = true) :
    l'.reached f k := by
  unfold reached at h ⊢
  rw [hiteration]
  exact h.imp_right fun ⟨hk, hf⟩ => ⟨hk, hpc hf⟩

/-- The main thread goes on within the iteration; the callback stays as it is, or is gone. -/
theorem Inv.move (h : l.Inv cfg i) (hiteration : l'.iteration = l.iteration)
    (hhandled : l'.handled = l.handled) (hclears : l'.clears = l.clears)
    (hbuffers : l'.buffers = l.buffers) (hbegun : l.pc.begun = true → l'.pc.begun = true)
    (hcleared : ∀ r, l.pc.cleared r = true → l'.pc.cleared r = true)
    (hlistening : cfg.test = .writedata → l'.pc.listening = true → l.pc.listening = true ∧
      l'.callback = l.callback ∧ l'.dataOk = l.dataOk ∧ l'.processed = l.processed)
    (hheard : cfg.test = .writedata → l'.pc.heard = true → l.pc.heard = true) : l'.Inv cfg i where
  others := by
    rw [hhandled]
    exact h.others
  recorded := by
    rw [hhandled]
    exact h.recorded
  inTime := by
    rw [hhandled]
    exact fun e he => (h.inTime e he).mono hiteration hbegun
  listening htest hpc := by
    -- in the test of `writedata` the callback counts what has been heard, and both stay
    obtain ⟨hpc', hcallback, hok, hprocessed⟩ := hlistening htest hpc
    rw [hcallback, hok, hprocessed, hiteration, heardFrom, hhandled]
    exact h.listening htest hpc'
  complete htest k hk := by
    rw [heardFrom, hhandled]
    exact h.complete htest k (hk.mono hiteration.symm (hheard htest))
  buffers r k hk := by
    rw [hbuffers] at hk
    exact (h.buffers r k hk).mono hiteration (hcleared r)
  clears := by
    rw [hclears]
    exact h.clears

/-- The main thread leaves the loop with an error. -/
theorem Inv.fail (h : l.Inv cfg i) (hheard : cfg.test = .writedata → l.pc.heard = true) :
    l.fail.Inv cfg i :=
  h.move rfl rfl rfl rfl (fun _ => rfl) (fun _ _ => rfl)
    (fun _ hpc => absurd hpc (by simp [IterationRank.fail, IterationPc.listening]))
    fun htest _ => hheard htest

/-- At the beginning of an iteration none of its events was handled. -/
theorem Inv.heardFrom_begin (h : l.Inv cfg i) (hpc : l.pc = .begin) :
    l.heardFrom l.iteration = [] := by
  refine List.eq_nil_iff_forall_not_mem.mpr fun r hr => ?_
  obtain ⟨e, he, -, hk⟩ := mem_heardFrom.mp hr
  rcases h.inTime e he with hlt | ⟨-, hbegun⟩
  · omega
  · rw [hpc] at hbegun
    exact absurd hbegun (by simp [IterationPc.begun])

/-- An iteration begins. -/
theorem Inv.install (h : l.Inv cfg i) (hpc : l.pc = .begin) : (l.install cfg.test).Inv cfg i := by
  cases htest : cfg.test with
  | write =>
    -- no callback is installed, and only the program counter changes
    refine h.move rfl rfl rfl rfl (fun _ => rfl) ?_ ?_ ?_
    · intro r hr
      rw [hpc] at hr
      exact absurd hr (by simp [IterationPc.cleared])
    · intro hwritedata
      exact absurd (htest.symm.trans hwritedata) (by simp)
    · intro _ hheard
      exact absurd hheard (by simp [IterationRank.install, IterationPc.heard])
  | writedata =>
    constructor
    case others => exact h.others
    case recorded => exact h.recorded
    case inTime => exact fun e he => (h.inTime e he).mono rfl fun _ => rfl
    case listening =>
      -- the iteration begins with nothing heard, as the counter of the callback does
      intro _ _
      refine ⟨rfl, rfl, ?_⟩
      show 0 = (l.heardFrom l.iteration).length
      rw [h.heardFrom_begin hpc, List.length_nil]
    case complete =>
      intro _ k hk
      refine h.complete htest k (hk.mono rfl fun hheard => ?_)
      exact absurd hheard (by simp [IterationRank.install, IterationPc.heard])
    case buffers =>
      intro r k hk
      refine (h.buffers r k hk).mono rfl fun hcleared => ?_
      rw [hpc] at hcleared
      exact absurd hcleared (by simp [IterationPc.cleared])
    case clears => exact h.clears

/-- Buffer `r` is cleared, and held nothing of this iteration. -/
theorem Inv.clear (h : l.Inv cfg i) {r : ℕ} (hpc : l.pc = .clear r) : (l.clear r).Inv cfg i := by
  have hcleared : ∀ r', l.pc.cleared r' = true → (l.clear r).pc.cleared r' = true := by
    intro r' hr'
    rw [hpc] at hr'
    simp only [IterationPc.cleared, IterationRank.clear, decide_eq_true_eq] at hr' ⊢
    omega
  constructor
  case others => exact h.others
  case recorded => exact h.recorded
  case inTime => exact fun e he => (h.inTime e he).mono rfl fun _ => rfl
  case listening => exact fun htest _ => h.listening htest (by rw [hpc]; rfl)
  case complete =>
    intro htest k hk
    refine h.complete htest k (hk.mono rfl fun hheard => ?_)
    simp [IterationRank.clear, IterationPc.heard] at hheard
  case buffers =>
    intro r' k hk
    simp only [IterationRank.clear, Function.update_apply] at hk
    split at hk
    · exact absurd hk (by simp)
    · exact (h.buffers r' k hk).mono rfl (hcleared r')
  case clears =>
    intro x hx
    rcases List.mem_append.mp hx with hx | hx
    · exact h.clears x hx
    · rw [List.mem_singleton.mp hx]
      intro hdata
      -- The buffer would have been cleared in this iteration before.
      rcases h.buffers r l.iteration hdata with hlt | ⟨-, hbefore⟩
      · omega
      · rw [hpc] at hbefore
        simp [IterationPc.cleared] at hbefore

/-- All events of the iteration were counted, so each peer's was handled. -/
theorem Inv.eventsDone (h : l.Inv cfg i) (hi : i < cfg.size)
    (hnodup : (l.heardFrom l.iteration).Nodup) (htest : cfg.test = .writedata)
    (hpc : l.pc = .waitEvents) (hevents : cfg.size - 1 ≤ l.processed) :
    l.dataOk = true ∧ ∀ r < cfg.size, r ≠ i → r ∈ l.heardFrom l.iteration := by
  obtain ⟨-, hok, hprocessed⟩ := h.listening htest (by rw [hpc]; rfl)
  refine ⟨hok, fun r hr hne => ?_⟩
  have hsub : l.heardFrom l.iteration ⊆ otherRanks i cfg.size := by
    intro r' hr'
    obtain ⟨e, he, rfl, -⟩ := mem_heardFrom.mp hr'
    exact mem_otherRanks.mpr (h.others e he)
  have hperm := (hnodup.subperm hsub).perm_of_length_le (by rw [length_otherRanks hi]; omega)
  exact hperm.mem_iff.mpr (mem_otherRanks.mpr ⟨hr, hne⟩)

/-- All events of the iteration were waited for. -/
theorem Inv.heard (h : l.Inv cfg i) (hpc : l.pc = .waitEvents)
    (hall : ∀ r < cfg.size, r ≠ i → r ∈ l.heardFrom l.iteration) :
    Inv cfg i { l with pc := .fence false } := by
  constructor
  case others => exact h.others
  case recorded => exact h.recorded
  case inTime => exact fun e he => (h.inTime e he).mono rfl fun _ => rfl
  case listening => exact fun htest _ => h.listening htest (by rw [hpc]; rfl)
  case complete =>
    rintro htest k (hlt | ⟨rfl, -⟩)
    · exact h.complete htest k (.inl hlt)
    · exact hall
  case buffers => exact fun r k hk => (h.buffers r k hk).mono rfl fun _ => rfl
  case clears => exact h.clears

/-- The iteration ends. -/
theorem Inv.next (h : l.Inv cfg i) (hpc : l.pc = .inFence true) :
    Inv cfg i { l with pc := .begin, iteration := l.iteration + 1, callback := none } := by
  have hover : ∀ f k, l.reached f k → IterationRank.reached
      { l with pc := .begin, iteration := l.iteration + 1, callback := none } f k := by
    rintro f k (hlt | ⟨rfl, -⟩)
    · exact .inl (Nat.lt_succ_of_lt hlt)
    · exact .inl (Nat.lt_succ_self _)
  constructor
  case others => exact h.others
  case recorded => exact h.recorded
  case inTime => exact fun e he => hover _ _ (h.inTime e he)
  case listening => exact fun _ hlistening => absurd hlistening (by simp [IterationPc.listening])
  case complete =>
    rintro htest k (hlt | ⟨-, hheard⟩)
    · rcases Nat.lt_succ_iff_lt_or_eq.mp hlt with hlt | rfl
      · exact h.complete htest k (.inl hlt)
      · exact h.complete htest _ (.inr ⟨rfl, by rw [hpc]; rfl⟩)
    · exact absurd hheard (by simp [IterationPc.heard])
  case buffers => exact fun r k hk => hover _ _ (h.buffers r k hk)
  case clears => exact h.clears

/-- Data arrives after the buffer was cleared. -/
theorem Inv.place (h : l.Inv cfg i) {src k : ℕ} (hcleared : l.reached (IterationPc.cleared src) k) :
    Inv cfg i { l with buffers := Function.update l.buffers src (.data k) } := by
  constructor
  case others => exact h.others
  case recorded => exact h.recorded
  case inTime => exact h.inTime
  case listening => exact h.listening
  case complete => exact h.complete
  case buffers =>
    intro r k' hk
    simp only [Function.update_apply] at hk
    split at hk
    · rename_i hr
      rw [hr, ← BufferContent.data.inj hk]
      exact hcleared
    · exact h.buffers r k' hk
  case clears => exact h.clears

/-- The callback accepts an event of its iteration. -/
theorem callbackAccepts_own {src k : ℕ} (hsize : cfg.size < 2 ^ 32) (hsrc : src < cfg.size)
    (hne : src ≠ i) (hk : k + 1 < 2 ^ 32) :
    callbackAccepts cfg.size i k
      (makeImmData (BitVec.ofNat 64 src) (BitVec.ofNat 64 (k + 1))) = true := by
  have hvalue : (BitVec.ofNat 64 src).toNat = src := by
    rw [BitVec.toNat_ofNat]
    exact Nat.mod_eq_of_lt (by omega)
  rw [callbackAccepts, immIteration_makeImmData _ hk, immSender_makeImmData (by omega), hvalue]
  simp [hsrc, hne]

/-- An event is handled while the callback of its iteration is installed. -/
theorem Inv.handle (h : l.Inv cfg i) {src k : ℕ} (htest : cfg.test = .writedata)
    (hsrc : src < cfg.size) (hne : src ≠ i) (hnew : src ∉ l.heardFrom k)
    (hbegun : l.reached IterationPc.begun k) (hk : k + 1 < 2 ^ 32) :
    (l.handle cfg.size i src k).Inv cfg i := by
  -- The events of an iteration are all handled before it is left.
  have hnow : k = l.iteration ∧ l.pc.listening = true := by
    have hnotheard : ¬l.reached IterationPc.heard k := fun hheard =>
      hnew (h.complete htest k hheard src hsrc hne)
    rcases hbegun with hlt | ⟨hk, hbegun⟩
    · exact absurd (.inl hlt) hnotheard
    · refine ⟨hk, ?_⟩
      have hpc : l.pc.heard ≠ true := fun hheard => hnotheard (.inr ⟨hk, hheard⟩)
      cases hl : l.pc <;> simp_all [IterationPc.begun, IterationPc.heard, IterationPc.listening]
  obtain ⟨hiteration, hpc⟩ := hnow
  obtain ⟨hcallback, hok, hprocessed⟩ := h.listening htest hpc
  have haccepts := callbackAccepts_own (i := i) cfg.size_lt hsrc hne hk
  have hhandle : l.handle cfg.size i src k =
      { l with dataOk := true
               seenSenders := l.seenSenders.insert
                 (immSender (makeImmData (BitVec.ofNat 64 src) (BitVec.ofNat 64 (k + 1)))).toNat
               processed := l.processed + 1
               handled := l.handled ++ [⟨src, k, some k, true⟩] } := by
    simp only [IterationRank.handle, hcallback, ← hiteration, hok, haccepts, Bool.and_self, if_true]
  rw [hhandle]
  have hmem : ∀ e, e ∈ l.handled ++ [⟨src, k, some k, true⟩] ↔
      e ∈ l.handled ∨ e = ⟨src, k, some k, true⟩ := by simp
  constructor
  case others =>
    intro e he
    rcases (hmem e).mp he with he | rfl
    · exact h.others e he
    · exact ⟨hsrc, hne⟩
  case recorded =>
    intro e he
    rcases (hmem e).mp he with he | rfl
    · exact h.recorded e he
    · exact ⟨rfl, rfl⟩
  case inTime =>
    intro e he
    rcases (hmem e).mp he with he | rfl
    · exact h.inTime e he
    · exact hbegun
  case listening =>
    intro _ _
    refine ⟨hcallback, rfl, ?_⟩
    simp only [hprocessed, heardFrom, List.filter_append, List.map_append, List.length_append]
    simp [hiteration]
  case complete =>
    intro htest k' hk' r hr hne'
    obtain ⟨e, he, hsrc', hiter⟩ := mem_heardFrom.mp (h.complete htest k' hk' r hr hne')
    exact mem_heardFrom.mpr ⟨e, List.mem_append_left _ he, hsrc', hiter⟩
  case buffers => exact h.buffers
  case clears => exact h.clears

end IterationRank

section Steps

variable {cfg : IterationSetup} {i : ℕ} {s s' : IterationShared} {l l' : IterationRank}

/-- What arrives is taken from the network. -/
theorem count_arrived {x : Flight} {pre post : List Flight} :
    (pre ++ post).count x < (pre ++ x :: post).count x := by
  simp [List.count_append]

/-- What holds of a rank survives its steps in time. -/
theorem IterationStep.inv (h : IterationStep cfg i s l s' l') (hl : l.Inv cfg i)
    (hi : i < cfg.size) (hnodup : ∀ k, (l.heardFrom k).Nodup)
    (hnet : ∀ r k, .event r i k ∈ s.net →
      cfg.test = .writedata ∧ r < cfg.size ∧ r ≠ i ∧ r ∉ l.heardFrom k)
    (htime : InTime i s l s' l') : l'.Inv cfg i := by
  cases h with
  | begin hpc hloop => exact hl.install hpc
  | clear hpc hr hne => exact hl.clear hpc
  | eventsDone htest hpc hevents =>
    obtain ⟨hok, hall⟩ := hl.eventsDone hi (hnodup _) htest hpc hevents
    rw [if_pos hok]
    exact hl.heard hpc hall
  | next hpc hall => exact hl.next hpc
  -- What arrives does so in time.
  | @place _ _ _ _ src k => exact hl.place ((htime src k).1 count_arrived)
  | @handle pre post _ _ src k hplaced =>
    have hmem : Flight.event src i k ∈ pre ++ Flight.event src i k :: post :=
      List.mem_append_right _ List.mem_cons_self
    obtain ⟨htest, hsrc, hne, hnew⟩ := hnet src k hmem
    obtain ⟨hbegun, hk⟩ := (htime src k).2 count_arrived
    exact hl.handle htest hsrc hne hnew hbegun hk
  | check hpc =>
    split
    · refine hl.move rfl rfl rfl rfl ?_ ?_ ?_ ?_
      all_goals cases cfg.deliveryComplete <;>
        simp [hpc, IterationPc.begun, IterationPc.cleared, IterationPc.listening, IterationPc.heard]
    · exact hl.fail fun _ => by rw [hpc]; rfl
  | timeout hpc => exact hl.fail fun _ => by rw [hpc]; rfl
  | notVerified hpc hall => exact hl.fail fun _ => by rw [hpc]; rfl
  | writeComplete hposted =>
    exact hl.move rfl rfl rfl rfl (fun h => h) (fun _ h => h) (fun _ h => ⟨h, rfl, rfl, rfl⟩)
      fun _ h => h
  | writesDone hpc hwrites =>
    refine hl.move rfl rfl rfl rfl ?_ ?_ ?_ ?_
    all_goals cases cfg.test <;>
      simp [hpc, IterationPc.begun, IterationPc.cleared, IterationPc.listening, IterationPc.heard]
  | finish hpc | skipClear hpc | clearEnd hpc | skipPost hpc | post hpc | postEnd hpc
  | enterFence hpc | leaveFence hpc | visible hpc | verified hpc =>
    refine hl.move rfl rfl rfl rfl ?_ ?_ ?_ ?_
    all_goals
      simp only [hpc, IterationPc.begun, IterationPc.cleared, IterationPc.listening,
        IterationPc.heard, decide_eq_true_eq, Bool.false_eq_true, imp_self, implies_true, and_self,
        false_implies]
    all_goals omega

/-- The events that a rank has generated depend on its position only. -/
theorem IterationRank.events_congr {r k : ℕ} (hiteration : l'.iteration = l.iteration)
    (hposted : l'.pc.posted r = l.pc.posted r) : l'.events cfg r k = l.events cfg r k := by
  unfold IterationRank.events
  rw [hiteration, hposted]

/-- A step that generates no event and handles none. -/
theorem balanced_of_quiet {r j k : ℕ}
    (hnet : s'.net.count (.event r j k) = s.net.count (.event r j k))
    (hhandled : l'.handled = l.handled)
    (hevents : r = i → l'.events cfg j k = l.events cfg j k) :
    s'.net.count (.event r j k) + (if j = i then (l'.heardFrom k).count r else 0) +
        (if r = i then l.events cfg j k else 0) =
      s.net.count (.event r j k) + (if j = i then (l.heardFrom k).count r else 0) +
        (if r = i then l'.events cfg j k else 0) := by
  rw [hnet, IterationRank.heardFrom, IterationRank.heardFrom, hhandled]
  by_cases hr : r = i
  · rw [hevents hr]
  · rw [if_neg hr, if_neg hr]

/-- Handling an event adds it to the events handled, and leaves the main thread where it is. -/
theorem IterationRank.handle_spec (l : IterationRank) (size i src k : ℕ) :
    (l.handle size i src k).pc = l.pc ∧ (l.handle size i src k).iteration = l.iteration ∧
      ∃ callback recorded, (l.handle size i src k).handled =
        l.handled ++ [⟨src, k, callback, recorded⟩] := by
  unfold IterationRank.handle
  cases l.callback with
  | none => exact ⟨rfl, rfl, none, false, rfl⟩
  | some k' => exact ⟨rfl, rfl, some k', _, rfl⟩

/-- A write generates one event. -/
theorem balanced_post (cfg : IterationSetup) (i r j k : ℕ) {dst : ℕ} (hpc : l.pc = .post dst) :
    (s.net ++ cfg.test.flights i dst l.iteration).count (.event r j k) +
        (if r = i then l.events cfg j k else 0) =
      s.net.count (.event r j k) +
        if r = i then
          IterationRank.events cfg
            { l with pc := .post (dst + 1), writesPosted := l.writesPosted + 1 } j k
        else 0 := by
  cases htest : cfg.test with
  | write => simp [WriteTest.flights, IterationRank.events, htest, List.count_append]
  | writedata =>
    by_cases hr : r = i
    · subst hr
      simp only [WriteTest.flights, IterationRank.events, htest, hpc, IterationPc.posted,
        List.count_append, List.count_cons, List.count_nil, if_true, decide_eq_true_eq]
      by_cases hsame : j = dst ∧ k = l.iteration
      · obtain ⟨rfl, rfl⟩ := hsame
        simp
      · have hother : ¬(dst = j ∧ l.iteration = k) := fun ⟨hj, hk⟩ => hsame ⟨hj.symm, hk.symm⟩
        have hsplit : (k < l.iteration ∨ k = l.iteration ∧ j < dst + 1) ↔
            k < l.iteration ∨ k = l.iteration ∧ j < dst := by omega
        rw [if_congr hsplit rfl rfl]
        simp [hother]
    · simp [WriteTest.flights, hr, List.count_append, Ne.symm hr]

/-- An event that a step generates is on its way, and one that it takes from the network was
handled. -/
theorem IterationStep.balanced (h : IterationStep cfg i s l s' l') (r j k : ℕ) (hj : j < cfg.size)
    (hne : r ≠ j) :
    s'.net.count (.event r j k) + (if j = i then (l'.heardFrom k).count r else 0) +
        (if r = i then l.events cfg j k else 0) =
      s.net.count (.event r j k) + (if j = i then (l.heardFrom k).count r else 0) +
        (if r = i then l'.events cfg j k else 0) := by
  cases h with
  | @post _ _ dst hpc hr hdst =>
    have hpost := balanced_post (s := s) cfg i r j k hpc
    show (s.net ++ cfg.test.flights i dst l.iteration).count (.event r j k) +
      (if j = i then (l.heardFrom k).count r else 0) + _ =
        _ + (if j = i then (l.heardFrom k).count r else 0) + _
    omega
  | @place pre post _ _ src k' =>
    -- Only data leaves the network.
    refine balanced_of_quiet ?_ rfl fun _ => rfl
    simp [List.count_append]
  | @handle pre post _ _ src k' hplaced =>
    obtain ⟨hpc, hiteration, callback, recorded, hhandled⟩ := l.handle_spec cfg.size i src k'
    rw [IterationRank.events_congr (k := k) (r := j) hiteration (by rw [hpc])]
    -- Rank `i` handles the event counted here, or another one.
    simp only [IterationRank.heardFrom, hhandled, List.filter_append, List.map_append,
      List.count_append, List.count_cons, Flight.event.injEq, beq_iff_eq]
    by_cases hsame : src = r ∧ i = j ∧ k' = k
    · obtain ⟨rfl, rfl, rfl⟩ := hsame
      simp only [if_true, List.filter_cons, decide_true, List.map_cons, List.filter_nil,
        List.map_nil, List.count_singleton_self, and_self]
      omega
    · rw [if_neg hsame]
      by_cases hi : j = i
      · subst hi
        have hother : ¬(k' = k ∧ src = r) := fun ⟨hk, hr⟩ => hsame ⟨hr, rfl, hk⟩
        by_cases hk : k' = k
        · have hsrc : src ≠ r := fun hr => hother ⟨hk, hr⟩
          simp [hk, hsrc]
        · simp [hk]
      · simp [hi]
  | begin hpc hloop =>
    cases htest : cfg.test <;>
      exact balanced_of_quiet rfl rfl fun _ => IterationRank.events_congr rfl (by rw [hpc]; rfl)
  | next hpc hall =>
    refine balanced_of_quiet rfl rfl fun _ => ?_
    -- All writes of an iteration are posted when it is left, and none of the next one.
    have hover : (k < l.iteration + 1 ∨ k = l.iteration + 1 ∧ False) ↔
        k < l.iteration ∨ k = l.iteration ∧ True := by
      simp only [and_false, or_false, and_true]
      omega
    cases htest : cfg.test <;>
      simp only [IterationRank.events, htest, hpc, IterationPc.posted, Bool.false_eq_true, hover]
  | eventsDone htest hpc hevents =>
    cases l.dataOk <;>
      exact balanced_of_quiet rfl rfl fun _ => IterationRank.events_congr rfl (by rw [hpc]; rfl)
  | check hpc =>
    refine balanced_of_quiet rfl ?_ fun _ => ?_
    · split <;> rfl
    · split
      · cases cfg.deliveryComplete <;>
          exact IterationRank.events_congr rfl (by simp [hpc, IterationPc.posted])
      · exact IterationRank.events_congr rfl (by simp [hpc, IterationRank.fail, IterationPc.posted])
  | writesDone hpc hwrites =>
    cases htest : cfg.test <;>
      exact balanced_of_quiet rfl rfl fun _ => IterationRank.events_congr rfl (by rw [hpc]; rfl)
  | skipPost hpc hi =>
    -- The own rank is passed over, and `r` is not `j`.
    refine balanced_of_quiet rfl rfl fun hr => IterationRank.events_congr rfl ?_
    rw [hpc]
    simp only [IterationPc.posted, decide_eq_decide]
    omega
  | postEnd hpc =>
    refine balanced_of_quiet rfl rfl fun _ => IterationRank.events_congr rfl ?_
    simp [hpc, IterationPc.posted, hj]
  | writeComplete hposted => exact balanced_of_quiet rfl rfl fun _ => rfl
  | clearEnd hpc =>
    refine balanced_of_quiet rfl rfl fun _ => IterationRank.events_congr rfl ?_
    simp [hpc, IterationPc.posted]
  | finish hpc | skipClear hpc | clear hpc | enterFence hpc | leaveFence hpc
  | visible hpc | timeout hpc | verified hpc | notVerified hpc =>
    exact balanced_of_quiet rfl rfl fun _ => IterationRank.events_congr rfl (by rw [hpc]; rfl)

/-- Events are generated by the rank that steps, for others. -/
theorem IterationStep.event_mem (h : IterationStep cfg i s l s' l') {r j k : ℕ}
    (hmem : .event r j k ∈ s'.net) : .event r j k ∈ s.net ∨ r = i ∧ r ≠ j := by
  cases h with
  | @post _ _ dst hpc hr hdst =>
    rcases List.mem_append.mp hmem with hmem | hmem
    · exact .inl hmem
    · cases htest : cfg.test with
      | write => simp [WriteTest.flights, htest] at hmem
      | writedata =>
        obtain ⟨rfl, rfl, -⟩ : r = i ∧ j = dst ∧ k = l.iteration := by
          simpa [WriteTest.flights, htest] using hmem
        exact .inr ⟨rfl, hdst.symm⟩
  | place | handle =>
    refine .inl ?_
    rcases List.mem_append.mp hmem with hmem | hmem
    · exact List.mem_append_left _ hmem
    · exact List.mem_append_right _ (List.mem_cons_of_mem _ hmem)
  | _ => exact .inl hmem

end Steps

/-! ### Runs in time -/

section Runs

variable {cfg : IterationSetup} {c : Config IterationShared IterationRank}

theorem IterationRank.events_le_one (m : IterationRank) (i k : ℕ) : m.events cfg i k ≤ 1 := by
  unfold IterationRank.events
  cases cfg.test with
  | write => exact Nat.zero_le _
  | writedata =>
    show (if _ then 1 else 0) ≤ 1
    split <;> omega

/-- No event of a peer is handled twice, and none is handled that is still on its way. -/
theorem IterInv.handled_once (h : IterInv cfg c) {i r : ℕ} {l : IterationRank}
    (hget : c.threads[i]? = some l) (hr : r < cfg.size) (hne : r ≠ i) (k : ℕ) :
    c.shared.net.count (.event r i k) + (l.heardFrom k).count r ≤ 1 ∧
      (cfg.test = .write → c.shared.net.count (.event r i k) = 0) := by
  have hlt : r < c.threads.length := by rw [h.length]; exact hr
  have hbalance := h.balance i r l c.threads[r] hget (List.getElem?_eq_getElem hlt) hne k
  refine ⟨by rw [hbalance]; exact IterationRank.events_le_one _ i k, fun htest => ?_⟩
  have hnone : (c.threads[r]).events cfg i k = 0 := by
    unfold IterationRank.events
    rw [htest]
  omega

theorem IterInv.heardFrom_nodup (h : IterInv cfg c) {i : ℕ} {l : IterationRank}
    (hget : c.threads[i]? = some l) (k : ℕ) : (l.heardFrom k).Nodup := by
  refine List.nodup_iff_count_le_one.mpr fun r => ?_
  by_cases hmem : r ∈ l.heardFrom k
  · obtain ⟨e, he, rfl, -⟩ := IterationRank.mem_heardFrom.mp hmem
    obtain ⟨hsrc, hne⟩ := (h.ranks i l hget).others e he
    have honce := (h.handled_once hget hsrc hne k).1
    omega
  · rw [List.count_eq_zero_of_not_mem hmem]
    exact Nat.zero_le _

/-- An event on its way was generated by `rdma-writedata-test`, for another rank that has not
handled it. -/
theorem IterInv.of_event_mem (h : IterInv cfg c) {i r k : ℕ} {l : IterationRank}
    (hget : c.threads[i]? = some l) (hmem : .event r i k ∈ c.shared.net) :
    cfg.test = .writedata ∧ r < cfg.size ∧ r ≠ i ∧ r ∉ l.heardFrom k := by
  obtain ⟨hr, hne⟩ := h.net r i k hmem
  have hpos := List.count_pos_iff.mpr hmem
  obtain ⟨honce, hwrite⟩ := h.handled_once hget hr hne k
  refine ⟨?_, hr, hne, fun hheard => ?_⟩
  · cases htest : cfg.test with
    | writedata => rfl
    | write =>
      have hnone := hwrite htest
      omega
  · have hheard := List.count_pos_iff.mpr hheard
    omega

theorem IterInv.start : IterInv cfg ⟨⟨[], fun _ => 0⟩, List.replicate cfg.size .start⟩ := by
  constructor
  case length => exact List.length_replicate
  case net => exact fun r i k hmem => absurd hmem List.not_mem_nil
  case ranks =>
    intro i l hget
    obtain rfl := List.eq_of_mem_replicate (List.mem_of_getElem? hget)
    constructor
    case others => exact fun e he => absurd he List.not_mem_nil
    case recorded => exact fun e he => absurd he List.not_mem_nil
    case inTime => exact fun e he => absurd he List.not_mem_nil
    case listening =>
      intro _ hpc
      simp [IterationRank.start, IterationPc.listening] at hpc
    case complete =>
      rintro - k (hlt | ⟨-, hheard⟩)
      · exact absurd hlt k.not_lt_zero
      · exact absurd hheard (by simp [IterationRank.start, IterationPc.heard])
    case buffers => exact fun r k hk => absurd hk (by simp [IterationRank.start])
    case clears => exact fun x hx => absurd hx List.not_mem_nil
  case balance =>
    -- nothing is posted, on its way or heard of
    intro i r l m hget hget' _ k
    obtain rfl := List.eq_of_mem_replicate (List.mem_of_getElem? hget)
    obtain rfl := List.eq_of_mem_replicate (List.mem_of_getElem? hget')
    cases htest : cfg.test <;>
      simp [IterationRank.heardFrom, IterationRank.start, IterationRank.events, htest,
        IterationPc.posted]

/-- The invariant survives a step in time. -/
theorem IterInv.step {i : ℕ} {s' : IterationShared} {l l' : IterationRank} (h : IterInv cfg c)
    (hget : c.threads[i]? = some l) (hstep : IterationStep cfg i c.shared l s' l')
    (htime : InTime i c.shared l s' l') : IterInv cfg ⟨s', c.threads.set i l'⟩ := by
  have hi : i < cfg.size := by
    rw [← h.length]
    exact (List.getElem?_eq_some_iff.mp hget).1
  constructor
  case length => simpa using h.length
  case net =>
    intro r j k hmem
    rcases hstep.event_mem hmem with hmem | ⟨rfl, hne⟩
    · exact h.net r j k hmem
    · exact ⟨hi, hne⟩
  case ranks =>
    intro j m hj
    rcases ThreadSystem.getElem?_set_cases hj with ⟨rfl, rfl⟩ | ⟨-, hm⟩
    · exact hstep.inv (h.ranks j l hget) hi (h.heardFrom_nodup hget)
        (fun r k hmem => h.of_event_mem hget hmem) htime
    · exact h.ranks j m hm
  case balance =>
    intro j r lj lr hgetj hgetr hne k
    -- the rank that steps is the sender, the receiver or neither
    rcases ThreadSystem.getElem?_set_cases hgetj with ⟨rfl, rfl⟩ | ⟨hji, hj⟩
    · rcases ThreadSystem.getElem?_set_cases hgetr with ⟨rfl, -⟩ | ⟨hri, hr⟩
      · exact absurd rfl hne
      · have hbefore := h.balance j r l lr hget hr hne k
        have hsame := hstep.balanced r j k hi hne
        rw [if_pos rfl, if_pos rfl, if_neg hri, if_neg hri] at hsame
        simp only
        omega
    · have hjlt : j < cfg.size := by
        rw [← h.length]
        exact (List.getElem?_eq_some_iff.mp hj).1
      have hsame := hstep.balanced r j k hjlt hne
      rw [if_neg hji, if_neg hji] at hsame
      rcases ThreadSystem.getElem?_set_cases hgetr with ⟨rfl, rfl⟩ | ⟨hri, hr⟩
      · have hbefore := h.balance j r lj l hj hget hne k
        rw [if_pos rfl, if_pos rfl] at hsame
        simp only
        omega
      · have hbefore := h.balance j r lj lr hj hr hne k
        rw [if_neg hri, if_neg hri] at hsame
        simp only
        omega

theorem IterInv.reachable (hc : ((iterationLoop cfg).restrict InTime).Reachable c) :
    IterInv cfg c := by
  refine hc.invariant (I := IterInv cfg) ?_ ?_
  · rintro ⟨s, ranks⟩ ⟨rfl, rfl⟩
    exact IterInv.start
  · rintro c _ - hinv ⟨i, hget, hstep, htime⟩
    exact hinv.step hget hstep htime

/-- In a run in which everything that arrives finds the receiver ready, nothing is lost: every event
is recorded by the callback of its own iteration, and no rank clears what a peer wrote in the same
iteration. -/
theorem nothingLost (hc : ((iterationLoop cfg).restrict InTime).Reachable c) :
    NothingLost cfg c := by
  have hinv := IterInv.reachable hc
  intro i l hget
  have hl := hinv.ranks i l hget
  refine ⟨hl.recorded, fun htest k hk r hr hne => ?_, hl.clears⟩
  exact IterationRank.mem_heardFrom.mp (hl.complete htest k (.inl hk) r hr hne)

end Runs

/-! ### Two ranks -/

/-- One iteration of two ranks, without `FI_DELIVERY_COMPLETE`. -/
def WriteTest.pair (test : WriteTest) : IterationSetup := ⟨test, 2, by norm_num, 1, false⟩

/-- A step that takes nothing from the network is in time. -/
theorem inTime_of_le {i : ℕ} {s s' : IterationShared} {l l' : IterationRank}
    (h : ∀ x, s.net.count x ≤ s'.net.count x) : InTime i s l s' l' :=
  fun _ _ => ⟨fun hlt => absurd hlt (Nat.not_lt.mpr (h _)),
    fun hlt => absurd hlt (Nat.not_lt.mpr (h _))⟩

/-- Rank 0 writes to rank 1, which has not begun its iteration. -/
theorem exists_posted (test : WriteTest) :
    ∃ l, ((iterationLoop test.pair).restrict InTime).Reachable
      ⟨⟨test.flights 0 1 0, fun _ => 0⟩, [l, .start]⟩ := by
  have hstart : ((iterationLoop test.pair).restrict InTime).Reachable
      ⟨⟨[], fun _ => 0⟩, [.start, .start]⟩ := .start ⟨rfl, rfl⟩
  have hquiet : ∀ {l l' : IterationRank}, InTime 0 ⟨[], fun _ => 0⟩ l ⟨[], fun _ => 0⟩ l' :=
    inTime_of_le fun _ => le_rfl
  have hbegin := hstart.next 0 rfl ⟨.begin rfl Nat.zero_lt_one, hquiet⟩
  have hskip := hbegin.next 0 rfl ⟨.skipClear (by cases test <;> rfl) Nat.zero_lt_two, hquiet⟩
  have hclear := hskip.next 0 rfl ⟨.clear rfl Nat.one_lt_two Nat.one_ne_zero, hquiet⟩
  have hend := hclear.next 0 rfl ⟨.clearEnd rfl, hquiet⟩
  have hself := hend.next 0 rfl ⟨.skipPost rfl Nat.zero_lt_two, hquiet⟩
  have hpost := hself.next 0 rfl ⟨.post rfl Nat.one_lt_two Nat.one_ne_zero,
    inTime_of_le fun x => by simp⟩
  cases test <;> exact ⟨_, hpost⟩

/-- Rank 1 takes the event of rank 0 from the network. -/
theorem pair_handle (l : IterationRank) :
    IterationStep WriteTest.writedata.pair 1 ⟨WriteTest.writedata.flights 0 1 0, fun _ => 0⟩ l
      ⟨[.data 0 1 0], fun _ => 0⟩ (l.handle 2 1 0 0) := by
  have hstep : IterationStep WriteTest.writedata.pair 1
      ⟨[.data 0 1 0] ++ .event 0 1 0 :: [], fun _ => 0⟩ l ⟨[.data 0 1 0] ++ [], fun _ => 0⟩
        (l.handle 2 1 0 0) := .handle (by decide)
  exact hstep

/-- Rank 1 begins its iteration and handles the event of rank 0. -/
theorem nothingLost_pair :
    ∃ c, ((iterationLoop WriteTest.writedata.pair).restrict InTime).Reachable c ∧
    c.threads[1]?.map (·.handled) = some [⟨0, 0, some 0, true⟩] ∧
      NothingLost WriteTest.writedata.pair c := by
  obtain ⟨l, hposted⟩ := exists_posted .writedata
  have hbegin := hposted.next 1 rfl ⟨.begin rfl Nat.zero_lt_one, inTime_of_le fun _ => le_rfl⟩
  have htime : InTime 1 ⟨WriteTest.writedata.flights 0 1 0, fun _ => 0⟩
      (IterationRank.start.install .writedata) ⟨[.data 0 1 0], fun _ => 0⟩
        ((IterationRank.start.install .writedata).handle 2 1 0 0) := by
    intro r k
    constructor
    · intro hlt
      simp [WriteTest.flights, List.count_cons] at hlt
    · intro hlt
      obtain ⟨rfl, rfl⟩ : 0 = r ∧ 0 = k := by
        by_contra hother
        simp [WriteTest.flights, hother] at hlt
      exact ⟨.inr ⟨rfl, rfl⟩, by norm_num⟩
  have hhandle := hbegin.next 1 rfl ⟨pair_handle _, htime⟩
  have hrecorded : ((IterationRank.start.install .writedata).handle 2 1 0 0).handled =
      [⟨0, 0, some 0, true⟩] := by decide
  exact ⟨_, hhandle, congrArg some hrecorded, nothingLost hhandle⟩

/-- In both tests a rank can write to one that has not begun its iteration: the event is dropped
while no callback is installed, and the data is cleared. -/
theorem not_nothingLost_pair :
    (¬∀ c, (iterationLoop WriteTest.writedata.pair).Reachable c →
      NothingLost WriteTest.writedata.pair c) ∧
    ¬∀ c, (iterationLoop WriteTest.write.pair).Reachable c →
      NothingLost WriteTest.write.pair c := by
  constructor
  · intro hall
    obtain ⟨l, hposted⟩ := exists_posted .writedata
    have hhandle := hposted.of_restrict.next 1 rfl (pair_handle .start)
    have hlost := (hall _ hhandle 1 _ rfl).1 ⟨0, 0, none, false⟩ (by decide)
    exact absurd hlost.1 (by decide)
  · intro hall
    obtain ⟨l, hposted⟩ := exists_posted .write
    have harrives : IterationStep WriteTest.write.pair 1
        ⟨[] ++ .data 0 1 0 :: [], fun _ => 0⟩ .start
        ⟨[] ++ [], fun _ => 0⟩ { IterationRank.start with
          buffers := Function.update IterationRank.start.buffers 0 (.data 0) } := .place
    have hplace := hposted.of_restrict.next 1 rfl harrives
    have hbegin := hplace.next 1 rfl (.begin rfl Nat.zero_lt_one)
    have hclear := hbegin.next 1 rfl (.clear (r := 0) rfl Nat.zero_lt_two (by decide))
    exact (hall _ hclear 1 _ rfl).2.2 ⟨0, 0, .data 0⟩ List.mem_cons_self rfl

end LibFatbat
