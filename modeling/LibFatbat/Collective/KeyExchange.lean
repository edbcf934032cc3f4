import LibFatbat.Collective.Buffers
import LibFatbat.Communicator.Operation
import LibFatbat.Concurrent.ThreadSystem

/-!
# The exchange of RMA keys

The constructor of `semaphore_info` and `exchange_rma_keys` of `test_utils.hpp`, run one after the
other by every rank, as the write benchmarks do before their first fence. In each of the two phases
a rank posts a receive for every other rank and sends it a key, and then waits for all receives and
sends posted so far.

The ranks are the threads of a `ThreadSystem`; what they share is the list of messages that no
receive has been matched with, in the order in which they were sent. A receive is matched by its tag
alone, whoever the sender is. Receives with equal tags are matched in the order in which they were
posted, and messages with equal tags between the same two ranks in the order in which they were
sent. When a matched receive completes, the key is stored.

The main result, `keysMatched_iff`, says that every receive gets the message it was posted for, in
every run, if and only if there are at most 2000 ranks.
-/

open Concurrent

namespace LibFatbat

/-- The two phases. -/
inductive ExchangePhase
  /-- In the constructor of `semaphore_info`. -/
  | semaphore
  /-- In `exchange_rma_keys`. -/
  | exchange
  deriving DecidableEq

/-- The tag given to `comm.send` by rank `r` and to `comm.recv` for rank `r`. -/
def ExchangePhase.tagArgument (r : ℕ) : ExchangePhase → BitVec 64
  | .semaphore => BitVec.ofNat 64 (2000 + r)
  | .exchange => BitVec.ofNat 64 r

/-- The tag that libfabric is given. -/
def ExchangePhase.tag (p : ExchangePhase) (r : ℕ) : BitVec 64 := makeTag64 (p.tagArgument r) 0#64

/-- An `rma_key_info`, by the memory that it describes. -/
inductive ExchangedKey
  /-- The semaphore slots of a rank. -/
  | semaphore (owner : ℕ)
  /-- The buffer of a rank that one other rank writes into. -/
  | buffer (owner writer : ℕ)
  deriving DecidableEq

/-- A message: the one that rank `src` sends to rank `dst` in a phase. -/
structure KeyMessage where
  phase : ExchangePhase
  src : ℕ
  dst : ℕ
  deriving DecidableEq

/-- The tag of a message. -/
def KeyMessage.tag (m : KeyMessage) : BitVec 64 := m.phase.tag m.src

/-- The key in a message. -/
def KeyMessage.key (m : KeyMessage) : ExchangedKey :=
  match m.phase with
  | .semaphore => .semaphore m.src
  | .exchange => .buffer m.src m.dst

/-- A receive that a rank has posted. -/
structure KeyReceive where
  phase : ExchangePhase
  /-- The rank it was posted for. -/
  peer : ℕ
  /-- The message it was matched with. -/
  message : Option KeyMessage
  completed : Bool
  deriving DecidableEq

/-- The tag of a receive. -/
def KeyReceive.tag (x : KeyReceive) : BitVec 64 := x.phase.tag x.peer

/-- Where a rank is. -/
inductive ExchangePc
  /-- In the loop over the ranks, at the receive for rank `r`. -/
  | recv (p : ExchangePhase) (r : ℕ)
  /-- At the send to rank `r`. -/
  | send (p : ExchangePhase) (r : ℕ)
  /-- In `wait_for_msg_completions`. -/
  | wait (p : ExchangePhase)
  /-- `exchange_rma_keys` has returned. -/
  | done
  deriving DecidableEq

/-- Where a rank goes after it has waited. -/
def ExchangePhase.next : ExchangePhase → ExchangePc
  | .semaphore => .recv .exchange 0
  | .exchange => .done

/-- A rank. -/
structure ExchangeRank where
  pc : ExchangePc
  /-- The receives posted, in order. -/
  receives : List KeyReceive
  sendsPosted : ℕ
  sendsComplete : ℕ
  /-- `remote_key_infos` of `semaphore_info`. -/
  remoteKeyInfos : ℕ → Option ExchangedKey
  /-- `remote_keys`. -/
  remoteKeys : ℕ → Option ExchangedKey

/-- A rank before the constructor. -/
def ExchangeRank.start : ExchangeRank where
  pc := .recv .semaphore 0
  receives := []
  sendsPosted := 0
  sendsComplete := 0
  remoteKeyInfos _ := none
  remoteKeys _ := none

/-- A key received for rank `r`. -/
def ExchangeRank.store (l : ExchangeRank) (p : ExchangePhase) (r : ℕ) (key : ExchangedKey) :
    ExchangeRank :=
  match p with
  | .semaphore => { l with remoteKeyInfos := Function.update l.remoteKeyInfos r (some key) }
  | .exchange => { l with remoteKeys := Function.update l.remoteKeys r (some key) }

/-- What a rank does when its loop reaches itself. -/
def ExchangeRank.own (l : ExchangeRank) (p : ExchangePhase) (i : ℕ) : ExchangeRank :=
  match p with
  | .semaphore => l.store .semaphore i (.semaphore i)
  | .exchange => l

/-- The steps of rank `i` of `size`. -/
inductive ExchangeStep (size i : ℕ) :
    List KeyMessage → ExchangeRank → List KeyMessage → ExchangeRank → Prop
  -- The loop over the ranks: one receive and one send for each peer.
  | own {net : List KeyMessage} {l : ExchangeRank} {p : ExchangePhase} (hpc : l.pc = .recv p i)
      (hi : i < size) :
      ExchangeStep size i net l net { l.own p i with pc := .recv p (i + 1) }
  | recv {net : List KeyMessage} {l : ExchangeRank} {p : ExchangePhase} {r : ℕ}
      (hpc : l.pc = .recv p r) (hr : r < size) (hne : r ≠ i) :
      ExchangeStep size i net l net
        { l with pc := .send p r, receives := l.receives ++ [⟨p, r, none, false⟩] }
  | send {net : List KeyMessage} {l : ExchangeRank} {p : ExchangePhase} {r : ℕ}
      (hpc : l.pc = .send p r) :
      ExchangeStep size i net l (net ++ [⟨p, i, r⟩])
        { l with pc := .recv p (r + 1), sendsPosted := l.sendsPosted + 1 }
  | loopEnd {net : List KeyMessage} {l : ExchangeRank} {p : ExchangePhase}
      (hpc : l.pc = .recv p size) : ExchangeStep size i net l net { l with pc := .wait p }
  -- Completions are polled in any order.
  | sendComplete {net : List KeyMessage} {l : ExchangeRank}
      (hposted : l.sendsComplete < l.sendsPosted) :
      ExchangeStep size i net l net { l with sendsComplete := l.sendsComplete + 1 }
  /-- The first receive posted with its tag is matched with the first message that some rank sent
  with that tag. -/
  | receive {pre post : List KeyMessage} {m : KeyMessage} {l : ExchangeRank}
      {rs rs' : List KeyReceive} {p : ExchangePhase} {r : ℕ}
      (hreceives : l.receives = rs ++ ⟨p, r, none, false⟩ :: rs') (hdst : m.dst = i)
      (htag : m.tag = p.tag r)
      (hposted : ∀ x ∈ rs, x.message = none → x.tag ≠ m.tag)
      (hsent : ∀ m' ∈ pre, ¬(m'.src = m.src ∧ m'.dst = i ∧ m'.tag = m.tag)) :
      ExchangeStep size i (pre ++ m :: post) l (pre ++ post)
        { l with receives := rs ++ ⟨p, r, some m, false⟩ :: rs' }
  -- The callback of the receive stores the key for the rank it was posted for.
  | recvComplete {net : List KeyMessage} {l : ExchangeRank} {rs rs' : List KeyReceive}
      {p : ExchangePhase} {r : ℕ} {m : KeyMessage}
      (hreceives : l.receives = rs ++ ⟨p, r, some m, false⟩ :: rs') :
      ExchangeStep size i net l net
        { l.store p r m.key with receives := rs ++ ⟨p, r, some m, true⟩ :: rs' }
  -- `wait_for_msg_completions` returns.
  | waited {net : List KeyMessage} {l : ExchangeRank} {p : ExchangePhase} (hpc : l.pc = .wait p)
      (hsends : l.sendsComplete = l.sendsPosted)
      (hreceives : ∀ x ∈ l.receives, x.completed = true) :
      ExchangeStep size i net l net { l with pc := p.next }

/-- The ranks of a job of the given size. -/
def keyExchange (size : ℕ) : ThreadSystem (List KeyMessage) ExchangeRank where
  init c := c.shared = [] ∧ c.threads = List.replicate size .start
  step := ExchangeStep size

/-- Every receive was matched with the message that the rank it was posted for sent in the same
phase, and the keys stored for a rank are those of its slots and of its buffer. -/
def KeysMatched (c : Config (List KeyMessage) ExchangeRank) : Prop :=
  ∀ (i : ℕ) (l : ExchangeRank), c.threads[i]? = some l →
    (∀ x ∈ l.receives, ∀ m, x.message = some m → m = ⟨x.phase, x.peer, i⟩) ∧
      (∀ r key, l.remoteKeyInfos r = some key → key = .semaphore r) ∧
        ∀ r key, l.remoteKeys r = some key → key = .buffer r i

/-! ### Tags -/

/-- `make_tag64` keeps the lower 24 bits of a tag. -/
theorem makeTag64_toNat (k : ℕ) : (makeTag64 (BitVec.ofNat 64 k) 0#64).toNat = k % 2 ^ 24 := by
  have hmask : ∀ n, n &&& 16777215 = n % 2 ^ 24 := fun n => Nat.and_two_pow_sub_one_eq_mod n 24
  simp only [makeTag64, BitVec.toNat_or, BitVec.toNat_and, BitVec.toNat_shiftLeft,
    BitVec.toNat_setWidth, BitVec.toNat_ofNat]
  norm_num [hmask]

namespace ExchangePhase

variable {p p' : ExchangePhase} {r r' size : ℕ}

theorem semaphore_tag (r : ℕ) : (semaphore.tag r).toNat = (2000 + r) % 2 ^ 24 :=
  makeTag64_toNat (2000 + r)

theorem exchange_tag (r : ℕ) : (exchange.tag r).toNat = r % 2 ^ 24 := makeTag64_toNat r

/-- In one phase, different ranks have different tags. -/
theorem tag_injective (hsize : size < 2 ^ 24) (hr : r < size) (hr' : r' < size)
    (h : p.tag r = p.tag r') : r = r' := by
  have hnat := congrArg BitVec.toNat h
  cases p with
  | semaphore =>
    rw [semaphore_tag, semaphore_tag] at hnat
    omega
  | exchange =>
    rw [exchange_tag, exchange_tag] at hnat
    omega

/-- A rank has different tags in the two phases. -/
theorem phase_eq_of_tag (h : p.tag r = p'.tag r) : p = p' := by
  have hne : semaphore.tag r ≠ exchange.tag r := by
    intro heq
    have hnat := congrArg BitVec.toNat heq
    rw [semaphore_tag, exchange_tag] at hnat
    omega
  cases p <;> cases p'
  · rfl
  · exact absurd h hne
  · exact absurd h.symm hne
  · rfl

/-- With at most 2000 ranks the two ranges of tags are apart. -/
theorem tag_apart (hsize : size ≤ 2000) (hr : r < size) (hr' : r' < size)
    (h : p.tag r = p'.tag r') : p = p' ∧ r = r' := by
  have hne : ∀ k k', k < size → k' < size → semaphore.tag k ≠ exchange.tag k' := by
    intro k k' hk hk' heq
    have hnat := congrArg BitVec.toNat heq
    rw [semaphore_tag, exchange_tag] at hnat
    omega
  have hphase : p = p' := by
    cases p <;> cases p'
    · rfl
    · exact absurd h (hne r r' hr hr')
    · exact absurd h.symm (hne r' r hr' hr)
    · rfl
  subst hphase
  exact ⟨rfl, tag_injective (by omega) hr hr' h⟩

end ExchangePhase

/-! ### At most 2000 ranks -/

section Matched

variable {size : ℕ} {c : Config (List KeyMessage) ExchangeRank}

/-- The ranks that messages come from and receives are posted for are those of the job. -/
structure ExchangeInv (size : ℕ) (c : Config (List KeyMessage) ExchangeRank) : Prop where
  length : c.threads.length = size
  net : ∀ m ∈ c.shared, m.src < size
  receives : ∀ (i : ℕ) (l : ExchangeRank), c.threads[i]? = some l → ∀ x ∈ l.receives, x.peer < size

theorem ExchangeRank.store_receives (l : ExchangeRank) (p : ExchangePhase) (r : ℕ)
    (key : ExchangedKey) : (l.store p r key).receives = l.receives := by
  cases p <;> rfl

theorem ExchangeRank.own_receives (l : ExchangeRank) (p : ExchangePhase) (i : ℕ) :
    (l.own p i).receives = l.receives := by
  cases p <;> rfl

/-- What holds of a list holds of it with one entry replaced. -/
theorem forall_mem_replace {α : Type*} {P : α → Prop} {xs ys : List α} {x y : α}
    (h : ∀ z ∈ xs ++ x :: ys, P z) (hxy : P x → P y) : ∀ z ∈ xs ++ y :: ys, P z := by
  intro z hz
  rcases List.mem_append.mp hz with hz | hz
  · exact h z (List.mem_append_left _ hz)
  · rcases List.mem_cons.mp hz with rfl | hz
    · exact hxy (h x (List.mem_append_right _ List.mem_cons_self))
    · exact h z (List.mem_append_right _ (List.mem_cons_of_mem _ hz))

/-- The messages and receives that a step leaves are as before, or new and of the job. -/
theorem ExchangeStep.keeps {i : ℕ} {net net' : List KeyMessage} {l l' : ExchangeRank}
    (h : ExchangeStep size i net l net' l') (hi : i < size) (hnet : ∀ m ∈ net, m.src < size)
    (hreceives : ∀ x ∈ l.receives, x.peer < size) :
    (∀ m ∈ net', m.src < size) ∧ ∀ x ∈ l'.receives, x.peer < size := by
  cases h with
  | own hpc hi =>
    refine ⟨hnet, ?_⟩
    show ∀ x ∈ (l.own _ i).receives, x.peer < size
    rw [l.own_receives]
    exact hreceives
  | recv hpc hr hne =>
    refine ⟨hnet, fun x hx => ?_⟩
    rcases List.mem_append.mp hx with hx | hx
    · exact hreceives x hx
    · rw [List.mem_singleton.mp hx]
      exact hr
  | send hpc =>
    refine ⟨fun m hm => ?_, hreceives⟩
    rcases List.mem_append.mp hm with hm | hm
    · exact hnet m hm
    · rw [List.mem_singleton.mp hm]
      exact hi
  | loopEnd hpc => exact ⟨hnet, hreceives⟩
  | sendComplete hposted => exact ⟨hnet, hreceives⟩
  | receive hsplit hdst htag hposted hsent =>
    rw [hsplit] at hreceives
    -- what is still in flight was so before, and the receive keeps its peer
    refine ⟨fun m hm => hnet m ?_, forall_mem_replace hreceives fun h => h⟩
    rcases List.mem_append.mp hm with hm | hm
    · exact List.mem_append_left _ hm
    · exact List.mem_append_right _ (List.mem_cons_of_mem _ hm)
  | recvComplete hsplit =>
    rw [hsplit] at hreceives
    exact ⟨hnet, forall_mem_replace hreceives fun h => h⟩
  | waited hpc hsends hall => exact ⟨hnet, hreceives⟩

theorem ExchangeInv.reachable (hc : (keyExchange size).Reachable c) : ExchangeInv size c := by
  refine hc.invariant (I := ExchangeInv size) ?_ ?_
  · rintro ⟨net, ranks⟩ ⟨rfl, rfl⟩
    refine ⟨List.length_replicate, fun m hm => absurd hm List.not_mem_nil, ?_⟩
    intro i l hget x hx
    rw [List.eq_of_mem_replicate (List.mem_of_getElem? hget)] at hx
    exact absurd hx List.not_mem_nil
  · rintro c _ - hinv ⟨i, hget, hstep⟩
    have hi : i < size := by
      rw [← hinv.length]
      exact (List.getElem?_eq_some_iff.mp hget).1
    obtain ⟨hnet, hreceives⟩ := hstep.keeps hi hinv.net (hinv.receives i _ hget)
    refine ⟨by simpa using hinv.length, hnet, fun j k hj => ?_⟩
    rcases ThreadSystem.getElem?_set_cases hj with ⟨-, rfl⟩ | ⟨-, hk⟩
    · exact hreceives
    · exact hinv.receives j k hk

/-- The receives of one rank, and the keys it has stored. -/
def ExchangeRank.Matched (l : ExchangeRank) (i : ℕ) : Prop :=
  (∀ x ∈ l.receives, ∀ m, x.message = some m → m = ⟨x.phase, x.peer, i⟩) ∧
    (∀ r key, l.remoteKeyInfos r = some key → key = .semaphore r) ∧
      ∀ r key, l.remoteKeys r = some key → key = .buffer r i

/-- The key of the right message goes where it belongs. -/
theorem ExchangeRank.Matched.store {l : ExchangeRank} {i r : ℕ} {p : ExchangePhase}
    (h : l.Matched i) : (l.store p r (KeyMessage.key ⟨p, r, i⟩)).Matched i := by
  obtain ⟨hreceives, hinfos, hkeys⟩ := h
  refine ⟨by rwa [l.store_receives], ?_⟩
  cases p with
  | semaphore =>
    refine ⟨fun r' key hkey => ?_, hkeys⟩
    simp only [ExchangeRank.store, Function.update_apply] at hkey
    split at hkey
    · rename_i heq
      rw [heq, ← Option.some.inj hkey]
      rfl
    · exact hinfos r' key hkey
  | exchange =>
    refine ⟨hinfos, fun r' key hkey => ?_⟩
    simp only [ExchangeRank.store, Function.update_apply] at hkey
    split at hkey
    · rename_i heq
      rw [heq, ← Option.some.inj hkey]
      rfl
    · exact hkeys r' key hkey

/-- A step of a rank keeps its matches, with at most 2000 ranks. -/
theorem ExchangeStep.matched {i : ℕ} {net net' : List KeyMessage} {l l' : ExchangeRank}
    (h : ExchangeStep size i net l net' l') (hsize : size ≤ 2000)
    (hnet : ∀ m ∈ net, m.src < size) (hreceives : ∀ x ∈ l.receives, x.peer < size)
    (hl : l.Matched i) : l'.Matched i := by
  cases h with
  | @own _ _ p hpc hi =>
    cases p with
    | semaphore => exact hl.store (p := .semaphore) (r := i)
    | exchange => exact hl
  | recv hpc hr hne =>
    refine ⟨fun x hx m hm => ?_, hl.2⟩
    rcases List.mem_append.mp hx with hx | hx
    · exact hl.1 x hx m hm
    · rw [List.mem_singleton.mp hx] at hm
      exact absurd hm (by simp)
  | send hpc => exact hl
  | loopEnd hpc => exact hl
  | sendComplete hposted => exact hl
  | @receive pre post m _ rs rs' p r hsplit hdst htag hposted hsent =>
    -- With at most 2000 ranks the tags of the two phases do not meet.
    have hmatch : m = ⟨p, r, i⟩ := by
      have hsrc : m.src < size := hnet m (by simp)
      have hr : r < size := hreceives ⟨p, r, none, false⟩ (by simp [hsplit])
      obtain ⟨hphase, hsame⟩ := ExchangePhase.tag_apart hsize hsrc hr htag
      rw [← hphase, ← hsame, ← hdst]
    have hbefore := hl.1
    rw [hsplit] at hbefore
    refine ⟨forall_mem_replace hbefore fun _ m' hm' => ?_, hl.2⟩
    rw [← Option.some.inj hm']
    exact hmatch
  | @recvComplete _ _ rs rs' p r m hsplit =>
    have hbefore := hl.1
    rw [hsplit] at hbefore
    have hmatch : m = ⟨p, r, i⟩ := hbefore ⟨p, r, some m, false⟩ (by simp) m rfl
    rw [hmatch]
    rw [hmatch] at hbefore
    exact ⟨forall_mem_replace hbefore fun h => h, (hl.store (p := p) (r := r)).2⟩
  | waited hpc hsends hall => exact hl

/-- With at most 2000 ranks every receive gets the message it was posted for. -/
theorem keysMatched_of_le (hsize : size ≤ 2000) (hc : (keyExchange size).Reachable c) :
    KeysMatched c := by
  refine hc.forall_threads (P := fun i _ l => l.Matched i) ?_ ?_ ?_
  · rintro ⟨net, ranks⟩ ⟨-, rfl⟩ i l hget
    rw [List.eq_of_mem_replicate (List.mem_of_getElem? hget)]
    exact ⟨fun x hx => absurd hx List.not_mem_nil, by simp [ExchangeRank.start],
      by simp [ExchangeRank.start]⟩
  · intro c i l net' l' hreach hget hl hstep
    have hinv := ExchangeInv.reachable hreach
    exact hstep.matched hsize hinv.net (hinv.receives i l hget) hl
  · intro c i j l k net' l' _ _ _ _ _ hk _
    exact hk

end Matched

/-! ### More than 2000 ranks -/

section Mismatch

variable {size i : ℕ} {c : Config (List KeyMessage) ExchangeRank} {l : ExchangeRank}

/-- A rank alone goes through its loop up to rank `k`. -/
theorem alone_loop (size i : ℕ) {p : ExchangePhase} {k : ℕ} (net : List KeyMessage)
    (hpc : l.pc = .recv p 0) (hk : k ≤ size) :
    ∃ l', (keyExchange size).Alone i (net, l)
        (net ++ (otherRanks i k).map (⟨p, i, ·⟩), l') ∧
      l'.pc = .recv p k ∧ l'.sendsComplete = l.sendsComplete ∧ l.sendsPosted ≤ l'.sendsPosted ∧
        l'.receives = l.receives ++ (otherRanks i k).map (⟨p, ·, none, false⟩) := by
  induction k with
  | zero =>
    refine ⟨l, ?_, hpc, rfl, le_rfl, by simp [otherRanks]⟩
    simpa [otherRanks] using ThreadSystem.Alone.refl i (net, l)
  | succ k ih =>
    obtain ⟨l', hrun, hpc', hcomplete, hposted, hreceives⟩ := ih (by omega)
    rw [otherRanks_succ]
    by_cases hki : k = i
    · -- the rank itself: the key is copied, and nothing is posted
      subst hki
      refine ⟨{ l'.own p k with pc := .recv p (k + 1) }, ?_, rfl, ?_, ?_, ?_⟩
      · simpa using hrun.step (.own hpc' (by omega))
      · rw [← hcomplete]
        cases p <;> rfl
      · cases p <;> exact hposted
      · rw [if_neg (by simp), List.append_nil, ← hreceives]
        exact l'.own_receives p k
    · -- another rank: a receive, and then the send of the key
      have hsent := (hrun.step (.recv hpc' (by omega) hki)).step (.send rfl)
      rw [if_pos hki, List.map_append, List.map_append, ← List.append_assoc, ← List.append_assoc,
        ← hreceives]
      exact ⟨_, hsent, rfl, hcomplete, Nat.le_succ_of_le hposted, rfl⟩

/-- The sends of a rank complete. -/
theorem alone_sendComplete (size i : ℕ) (net : List KeyMessage) {n : ℕ}
    (hn : l.sendsComplete + n ≤ l.sendsPosted) :
    (keyExchange size).Alone i (net, l) (net, { l with sendsComplete := l.sendsComplete + n }) := by
  induction n with
  | zero => exact .refl i (net, l)
  | succ n ih => exact (ih (by omega)).step (.sendComplete (by simp only; omega))

/-- The receives of a rank are matched and complete, when the messages they were posted for are
there. -/
theorem alone_receive (size i : ℕ) {p : ExchangePhase} {ranks : List ℕ} (finished : List KeyReceive)
    (net : List KeyMessage) (hnodup : ranks.Nodup)
    (hreceives : l.receives = finished ++ ranks.map (⟨p, ·, none, false⟩))
    (hfinished : ∀ x ∈ finished, x.message ≠ none ∧ x.completed = true)
    (hnet : ∀ r ∈ ranks, (⟨p, r, i⟩ : KeyMessage) ∈ net) :
    ∃ net' l', (keyExchange size).Alone i (net, l) (net', l') ∧
      l'.pc = l.pc ∧ l'.sendsComplete = l.sendsComplete ∧ l'.sendsPosted = l.sendsPosted ∧
        ∀ x ∈ l'.receives, x.completed = true := by
  induction ranks generalizing finished net l with
  | nil =>
    refine ⟨net, l, .refl i _, rfl, rfl, rfl, fun x hx => ?_⟩
    rw [hreceives, List.map_nil, List.append_nil] at hx
    exact (hfinished x hx).2
  | cons r ranks ih =>
    obtain ⟨hr, hnodup⟩ := List.nodup_cons.mp hnodup
    obtain ⟨pre, post, hsplit, hfirst⟩ := List.eq_append_cons_of_mem (hnet r List.mem_cons_self)
    -- The message is matched first, and then the receive completes.
    let rest : List KeyReceive := ranks.map (⟨p, ·, none, false⟩)
    let matched : ExchangeRank := { l with
      receives := finished ++ ⟨p, r, some ⟨p, r, i⟩, false⟩ :: rest }
    let completed : ExchangeRank := { matched.store p r (KeyMessage.key ⟨p, r, i⟩) with
      receives := finished ++ ⟨p, r, some ⟨p, r, i⟩, true⟩ :: rest }
    have hmatch : ExchangeStep size i net l (pre ++ post) matched := by
      rw [hsplit]
      refine .receive hreceives rfl rfl (fun x hx hnone => absurd hnone (hfinished x hx).1) ?_
      rintro ⟨p', src, dst⟩ hm ⟨rfl, rfl, htag⟩
      obtain rfl := ExchangePhase.phase_eq_of_tag htag
      exact hfirst hm
    have hcomplete : ExchangeStep size i (pre ++ post) matched (pre ++ post) completed :=
      .recvComplete rfl
    have hboth : (keyExchange size).Alone i (net, l) (pre ++ post, completed) :=
      ((ThreadSystem.Alone.refl i (net, l)).step hmatch).step hcomplete
    have hleft : ∀ r' ∈ ranks, (⟨p, r', i⟩ : KeyMessage) ∈ pre ++ post := by
      intro r' hr'
      have hmem := hnet r' (List.mem_cons_of_mem _ hr')
      rw [hsplit] at hmem
      simp only [List.mem_append, List.mem_cons, KeyMessage.mk.injEq] at hmem ⊢
      rcases hmem with hmem | ⟨-, rfl, -⟩ | hmem
      · exact .inl hmem
      · exact absurd hr' hr
      · exact .inr hmem
    have hdone : ∀ x ∈ finished ++ [⟨p, r, some ⟨p, r, i⟩, true⟩],
        x.message ≠ none ∧ x.completed = true := by
      intro x hx
      rcases List.mem_append.mp hx with hx | hx
      · exact hfinished x hx
      · rw [List.mem_singleton.mp hx]
        exact ⟨by simp, rfl⟩
    obtain ⟨net', l', hrun, hpc, hcompleted, hposted, hall⟩ := ih (l := completed) _ _ hnodup
      (by simp [completed, rest]) hdone hleft
    refine ⟨net', l', hboth.trans hrun, hpc.trans ?_, hcompleted.trans ?_, hposted.trans ?_, hall⟩
    all_goals cases p <;> rfl

/-- A rank has posted all receives and sends of the first phase. -/
structure FirstPosted (size i : ℕ) (l : ExchangeRank) : Prop where
  pc : l.pc = .wait .semaphore
  sends : l.sendsComplete ≤ l.sendsPosted
  receives : l.receives = (otherRanks i size).map (⟨.semaphore, ·, none, false⟩)

/-- The ranks go through the first loop one after the other. -/
theorem exists_firstPosted (size : ℕ) :
    ∃ c, (keyExchange size).Reachable c ∧ c.threads.length = size ∧
      (∀ i < size, ∀ r < size, r ≠ i → (⟨.semaphore, i, r⟩ : KeyMessage) ∈ c.shared) ∧
        ∀ (i : ℕ) (l : ExchangeRank), c.threads[i]? = some l → FirstPosted size i l := by
  have hstart : (keyExchange size).Reachable ⟨[], List.replicate size .start⟩ := .start ⟨rfl, rfl⟩
  have hlength : (List.replicate size ExchangeRank.start).length = size := List.length_replicate
  obtain ⟨c, hc, hlength', hsent, hposted⟩ := hstart.each
    (P := fun l => l = .start) (Q := fun i l => FirstPosted size i l)
    (I := fun k net => ∀ i < k, ∀ r < size, r ≠ i → (⟨.semaphore, i, r⟩ : KeyMessage) ∈ net)
    (fun i hi => absurd hi i.not_lt_zero) (fun l hl => List.eq_of_mem_replicate hl) (by
      rintro k net l - hnet rfl
      obtain ⟨l, hrun, hpc, hcomplete, -, hreceives⟩ :=
        alone_loop size k net (l := .start) rfl le_rfl
      refine ⟨_, _, hrun.step (.loopEnd hpc), ?_, rfl, ?_, hreceives⟩
      · intro i hi r hr hne
        rcases Nat.lt_succ_iff_lt_or_eq.mp hi with hi | rfl
        · exact List.mem_append_left _ (hnet i hi r hr hne)
        · exact List.mem_append_right _ (List.mem_map_of_mem (mem_otherRanks.mpr ⟨hr, hne⟩))
      · show l.sendsComplete ≤ l.sendsPosted
        rw [hcomplete]
        exact Nat.zero_le _)
  refine ⟨c, hc, hlength'.trans hlength, fun i hi => hsent i ?_, hposted⟩
  rw [hlength]
  exact hi

/-- With more than 2000 ranks, rank 2000 can be in the second phase while rank 1 still waits for the
first message of rank 0. What rank 2000 sends then has the tag that rank 1 expects of rank 0. -/
theorem exists_mismatch (hsize : 2000 < size) :
    ∃ c, (keyExchange size).Reachable c ∧ ¬KeysMatched c := by
  obtain ⟨c, hc, hlength, hsent, hposted⟩ := exists_firstPosted size
  have hat : ∀ i < size, ∃ l, c.threads[i]? = some l := by
    intro i hi
    exact ⟨_, List.getElem?_eq_getElem (by rw [hlength]; exact hi)⟩
  obtain ⟨l, hget⟩ := hat 2000 hsize
  obtain ⟨l₁, hget₁⟩ := hat 1 (by omega)
  obtain ⟨hpc, hle, hreceives⟩ := hposted 2000 l hget
  obtain ⟨-, -, hreceives₁⟩ := hposted 1 l₁ hget₁
  -- Rank 2000 leaves the first phase and goes through the loop of the second up to rank 1.
  have hsends := alone_sendComplete size 2000 c.shared (l := l)
    (n := l.sendsPosted - l.sendsComplete) (by omega)
  obtain ⟨net, l₂, hreceived, hpc₂, hcomplete₂, hposted₂, hall₂⟩ :=
    alone_receive size 2000 [] c.shared
      (l := { l with sendsComplete := l.sendsComplete + (l.sendsPosted - l.sendsComplete) })
      (p := .semaphore) (otherRanks_nodup 2000 size) hreceives
      (fun x hx => absurd hx List.not_mem_nil)
      fun r hr => hsent r (mem_otherRanks.mp hr).1 2000 hsize (mem_otherRanks.mp hr).2.symm
  have hwaited : ExchangeStep size 2000 net l₂ net { l₂ with pc := .recv .exchange 0 } := by
    refine .waited (p := .semaphore) (hpc₂.trans hpc) ?_ hall₂
    rw [hcomplete₂, hposted₂]
    simp only
    omega
  obtain ⟨l₃, hloop, -⟩ := alone_loop size 2000 (k := 2) (p := .exchange) net
    (l := { l₂ with pc := .recv .exchange 0 }) rfl (by omega)
  have hreach := hc.alone hget ((hsends.trans (hreceived.step hwaited)).trans hloop)
  -- Rank 1 receives what rank 2000 has just sent to it, for what rank 0 was to send.
  have hnew : (⟨.exchange, 2000, 1⟩ : KeyMessage) ∈
      net ++ (otherRanks 2000 2).map (⟨.exchange, 2000, ·⟩) :=
    List.mem_append_right _ (List.mem_map.mpr ⟨1, mem_otherRanks.mpr (by omega), rfl⟩)
  obtain ⟨pre, post, hsplit, hfirst⟩ := List.eq_append_cons_of_mem hnew
  obtain ⟨rest, hrest⟩ := otherRanks_one (k := size) (by omega)
  rw [hrest, List.map_cons] at hreceives₁
  have hmatch : ExchangeStep size 1 (pre ++ ⟨.exchange, 2000, 1⟩ :: post) l₁ (pre ++ post)
      { l₁ with receives := [] ++ ⟨.semaphore, 0, some ⟨.exchange, 2000, 1⟩, false⟩ ::
          rest.map (⟨.semaphore, ·, none, false⟩) } := by
    refine .receive hreceives₁ rfl rfl (fun x hx => absurd hx List.not_mem_nil) ?_
    rintro ⟨p, src, dst⟩ hm ⟨rfl, rfl, htag⟩
    obtain rfl := ExchangePhase.phase_eq_of_tag htag
    exact hfirst hm
  rw [← hsplit] at hmatch
  have hget' : (c.threads.set 2000 l₃)[1]? = some l₁ := by
    rw [List.getElem?_set_ne (by omega)]
    exact hget₁
  refine ⟨_, hreach.next 1 hget' hmatch, fun hall => ?_⟩
  have hone : 1 < (c.threads.set 2000 l₃).length := by
    rw [List.length_set, hlength]
    omega
  have hwrong := (hall 1 _ (List.getElem?_set_self hone)).1
    ⟨.semaphore, 0, some ⟨.exchange, 2000, 1⟩, false⟩ (by simp) _ rfl
  exact absurd (congrArg KeyMessage.phase hwrong) (by simp)

end Mismatch

/-- Every receive gets the message it was posted for, in every run, if and only if there are at most
2000 ranks. -/
theorem keysMatched_iff (size : ℕ) :
    (∀ c, (keyExchange size).Reachable c → KeysMatched c) ↔ size ≤ 2000 := by
  constructor
  · intro hall
    by_contra hsize
    obtain ⟨c, hc, hwrong⟩ := exists_mismatch (Nat.lt_of_not_le hsize)
    exact hwrong (hall c hc)
  · intro hsize c hc
    exact keysMatched_of_le hsize hc

/-- With 2001 ranks a semaphore receive of rank 1 can get a buffer key. -/
theorem not_keysMatched_2001 : ¬∀ c, (keyExchange 2001).Reachable c → KeysMatched c := by
  intro hall
  obtain ⟨c, hc, hwrong⟩ := exists_mismatch (by omega : 2000 < 2001)
  exact hwrong (hall c hc)

end LibFatbat
