import LibFatbat.Communicator.Operation

/-!
# Tags

`make_tag64` packs the tag of a call and a context into the 64 bits that the provider matches. Both
fields are 24 bits wide, although the tag may have 32 bits, "then we add 32bits of rank info".

Sends and receives between two ranks are posted in any order, and the provider may deliver any
outstanding send to any outstanding receive with the same 64 bits, as `recv_tagged_region` lets it
ignore none.

Main result: `tags_apart_iff`. Tags keep messages apart if and only if tags that are outstanding at
the same time and agree modulo `2 ^ 24` are equal.
-/

namespace LibFatbat

/-- The fields of a packed tag. -/
theorem toNat_makeTag64 (tag ctxt : BitVec 64) :
    (makeTag64 tag ctxt).toNat = ctxt.toNat % 2 ^ 24 * 2 ^ 24 + tag.toNat % 2 ^ 24 := by
  have hmask : (0xFFFFFF#64).toNat = 2 ^ 24 - 1 := rfl
  have htag : ((tag.setWidth 32).setWidth 64 &&& 0xFFFFFF#64).toNat = tag.toNat % 2 ^ 24 := by
    rw [BitVec.toNat_and, hmask, Nat.and_two_pow_sub_one_eq_mod, BitVec.toNat_setWidth,
      BitVec.toNat_setWidth]
    omega
  have hctxt : ((ctxt &&& 0xFFFFFF#64) <<< 24).toNat = (ctxt.toNat % 2 ^ 24) <<< 24 := by
    rw [BitVec.toNat_shiftLeft, BitVec.toNat_and, hmask, Nat.and_two_pow_sub_one_eq_mod,
      Nat.shiftLeft_eq]
    omega
  have hlt : tag.toNat % 2 ^ 24 < 2 ^ 24 := Nat.mod_lt _ (by decide)
  rw [makeTag64, BitVec.toNat_or, htag, hctxt, ← Nat.shiftLeft_add_eq_or_of_lt hlt,
    Nat.shiftLeft_eq]

/-- Packed tags are equal when both fields are. -/
theorem makeTag64_eq_iff {tag tag' ctxt ctxt' : BitVec 64} :
    makeTag64 tag ctxt = makeTag64 tag' ctxt' ↔
      tag.toNat % 2 ^ 24 = tag'.toNat % 2 ^ 24 ∧ ctxt.toNat % 2 ^ 24 = ctxt'.toNat % 2 ^ 24 := by
  rw [← BitVec.toNat_inj, toNat_makeTag64, toNat_makeTag64]
  omega

/-! ### Matching -/

/-- The `ignore` that `recv_tagged_region` passes. -/
def recvIgnore : BitVec 64 := 0#64

/-- The provider may deliver a send to a receive. -/
def FiRequest.Matches (recv send : FiRequest) : Prop :=
  ∃ r s, recv.tag = some r ∧ send.tag = some s ∧ r ||| recvIgnore = s ||| recvIgnore

/-- The sends of one rank to another and the receives that the other posts for them. -/
structure Outstanding where
  sends : List Call
  recvs : List Call
  /-- The receives and the sends that were delivered to them, latest first. -/
  delivered : List (Call × Call)

/-- Nothing is posted. -/
def Outstanding.none : Outstanding := ⟨[], [], []⟩

/-- What happens between two ranks. -/
inductive TagStep : Outstanding → Outstanding → Prop
  | send {m : Outstanding} (x : Call) (hfunc : x.func = .send) :
      TagStep m { m with sends := m.sends ++ [x] }
  | recv {m : Outstanding} (x : Call) (hfunc : x.func = .recv) :
      TagStep m { m with recvs := m.recvs ++ [x] }
  | deliver {m : Outstanding} {r s : Call} (hr : r ∈ m.recvs) (hs : s ∈ m.sends)
      (recvContext sendContext : Option ℕ)
      (hmatch : (r.request recvContext).Matches (s.request sendContext)) :
      TagStep m ⟨m.sends.erase s, m.recvs.erase r, (r, s) :: m.delivered⟩

/-- The states that are reached when every step starts in a state that meets `P`. -/
inductive TagRun (P : Outstanding → Prop) : Outstanding → Prop
  | start : TagRun P .none
  | step {m m' : Outstanding} (hm : TagRun P m) (hP : P m) (h : TagStep m m') : TagRun P m'

/-- Outstanding tags that share a field are equal. -/
def Outstanding.Apart (m : Outstanding) : Prop :=
  ∀ r ∈ m.recvs, ∀ s ∈ m.sends, r.tag.toNat % 2 ^ 24 = s.tag.toNat % 2 ^ 24 → r.tag = s.tag

/-- What is delivered next is for the tag of the receive. -/
def Outstanding.DeliversRight (m : Outstanding) : Prop :=
  ∀ m' r s, TagStep m m' → m'.delivered = (r, s) :: m.delivered → r.tag = s.tag

/-- The requests of a send and a receive match when their tags share a field. -/
theorem matches_iff {r s : Call} (hr : r.func = .recv) (hs : s.func = .send)
    (recvContext sendContext : Option ℕ) :
    (r.request recvContext).Matches (s.request sendContext) ↔
      r.tag.toNat % 2 ^ 24 = s.tag.toNat % 2 ^ 24 := by
  have hrecv : (r.request recvContext).tag = some (makeTag64 r.tag 0#64) := by
    unfold Call.request
    rw [hr]
    rfl
  have hsend : (s.request sendContext).tag = some (makeTag64 s.tag 0#64) := by
    unfold Call.request
    rw [hs]
    cases sendContext <;> rfl
  unfold FiRequest.Matches recvIgnore
  rw [hrecv, hsend]
  simp [makeTag64_eq_iff]

/-- Sends are sends and receives are receives. -/
theorem TagRun.funcs {P : Outstanding → Prop} {m : Outstanding} (hm : TagRun P m) :
    (∀ s ∈ m.sends, s.func = .send) ∧ ∀ r ∈ m.recvs, r.func = .recv := by
  induction hm with
  | start => simp [Outstanding.none]
  | step _ _ h ih =>
    obtain ⟨hsends, hrecvs⟩ := ih
    cases h with
    | send x hfunc =>
      refine ⟨fun s hs => ?_, hrecvs⟩
      rcases List.mem_append.mp hs with hs | hs
      · exact hsends s hs
      · exact List.mem_singleton.mp hs ▸ hfunc
    | recv x hfunc =>
      refine ⟨hsends, fun r hr => ?_⟩
      rcases List.mem_append.mp hr with hr | hr
      · exact hrecvs r hr
      · exact List.mem_singleton.mp hr ▸ hfunc
    | deliver =>
      exact ⟨fun s hs => hsends s (List.mem_of_mem_erase hs),
        fun r hr => hrecvs r (List.mem_of_mem_erase hr)⟩

/-- What is delivered next is right if and only if the outstanding tags are apart. -/
theorem deliversRight_iff {P : Outstanding → Prop} {m : Outstanding} (hm : TagRun P m) :
    m.DeliversRight ↔ m.Apart := by
  obtain ⟨hsends, hrecvs⟩ := hm.funcs
  constructor
  · intro hright r hr s hs hfield
    -- the provider is free to deliver this pair next
    have hmatch := (matches_iff (hrecvs r hr) (hsends s hs) none none).mpr hfield
    exact hright _ r s (.deliver hr hs none none hmatch) rfl
  · intro hapart m' r s hstep hdelivered
    cases hstep with
    | send | recv => exact absurd hdelivered (List.cons_ne_self _ _).symm
    | deliver hr hs _ _ hmatch =>
      obtain ⟨⟨rfl, rfl⟩, -⟩ := (List.cons.injEq _ _ _ _ ▸ hdelivered).imp_left Prod.mk.inj
      exact hapart _ hr _ hs ((matches_iff (hrecvs _ hr) (hsends _ hs) _ _).mp hmatch)

/-- A run whose states meet a condition is a run. -/
theorem TagRun.mono {P Q : Outstanding → Prop} {m : Outstanding} (hm : TagRun P m)
    (hPQ : ∀ m, P m → Q m) : TagRun Q m := by
  induction hm with
  | start => exact .start
  | step _ hP h ih => exact .step ih (hPQ _ hP) h

/-- When the outstanding tags are always apart, every receive is delivered a send of its tag. -/
theorem TagRun.tag_eq {m : Outstanding} (hm : TagRun Outstanding.Apart m) {r s : Call}
    (hmem : (r, s) ∈ m.delivered) : r.tag = s.tag := by
  induction hm with
  | start => exact absurd hmem List.not_mem_nil
  | step hm hapart h ih =>
    have hright := (deliversRight_iff hm).mpr hapart
    cases h with
    | send | recv => exact ih hmem
    | deliver hr hs recvContext sendContext hmatch =>
      rcases List.mem_cons.mp hmem with heq | hmem
      · exact hright _ r s (.deliver hr hs _ _ hmatch) (by rw [heq])
      · exact ih hmem

/-- Packed tags tell tags and contexts apart if and only if the tags do not share a field. At any
time of any run, what is delivered next is right if and only if the outstanding tags are apart; and
in runs in which they always are, every receive is delivered a send of its tag. -/
theorem tags_apart_iff (t t' : BitVec 32) {c c' : BitVec 64} (hc : c.toNat < 2 ^ 24)
    (hc' : c'.toNat < 2 ^ 24) {m : Outstanding} (hm : TagRun (fun _ => True) m) :
    ((makeTag64 (t.setWidth 64) c = makeTag64 (t'.setWidth 64) c' → t = t' ∧ c = c') ↔
      (t.toNat % 2 ^ 24 = t'.toNat % 2 ^ 24 → c = c' → t = t')) ∧
      (m.DeliversRight ↔ m.Apart) ∧
        (TagRun Outstanding.Apart m → ∀ r s, (r, s) ∈ m.delivered → r.tag = s.tag) := by
  refine ⟨?_, deliversRight_iff hm, fun hapart r s hmem => hapart.tag_eq hmem⟩
  have htag : ∀ u : BitVec 32, (u.setWidth 64).toNat = u.toNat := by
    intro u
    rw [BitVec.toNat_setWidth]
    omega
  -- contexts fit their field, tags may not
  have hctxt : c.toNat % 2 ^ 24 = c'.toNat % 2 ^ 24 ↔ c = c' := by
    rw [Nat.mod_eq_of_lt hc, Nat.mod_eq_of_lt hc', BitVec.toNat_inj]
  rw [makeTag64_eq_iff, htag, htag, hctxt]
  constructor
  · intro hinjective hfield hsame
    exact (hinjective ⟨hfield, hsame⟩).1
  · rintro hapart ⟨hfield, hsame⟩
    exact ⟨hapart hfield hsame, hsame⟩

/-- A send or a receive of eight bytes. -/
def Call.tagged (func : Func) (tag : BitVec 64) : Call :=
  ⟨0, func, 1#64, tag, 8, 0, 0#64, 0#64, 0#64, false⟩

/-- Small tags are told apart, and a receive of tag `5` is delivered the send of tag `5`. -/
theorem tags_apart_small :
    makeTag64 ((5#32).setWidth 64) 0#64 ≠ makeTag64 ((7#32).setWidth 64) 0#64 ∧
      ∃ m, TagRun Outstanding.Apart m ∧
        m.delivered = [(Call.tagged .recv 5#64, Call.tagged .send 5#64)] ∧ m.DeliversRight ∧
          ∀ r s, (r, s) ∈ m.delivered → r.tag = s.tag := by
  have hboth : Outstanding.Apart ⟨[.tagged .send 5#64], [.tagged .recv 5#64], []⟩ := by
    intro r hr s hs _
    rw [List.mem_singleton.mp hr, List.mem_singleton.mp hs]
    rfl
  have hm : TagRun Outstanding.Apart
      ⟨[], [], [(Call.tagged .recv 5#64, Call.tagged .send 5#64)]⟩ := by
    have h0 : TagRun Outstanding.Apart .none := .start
    have h1 := h0.step nofun (.send (.tagged .send 5#64) rfl)
    have h2 := h1.step nofun (.recv (.tagged .recv 5#64) rfl)
    have hmatch : ((Call.tagged .recv 5#64).request none).Matches
        ((Call.tagged .send 5#64).request none) := (matches_iff rfl rfl none none).mpr rfl
    have h3 := h2.step hboth
      (.deliver (List.mem_singleton_self _) (List.mem_singleton_self _) none none hmatch)
    exact h3
  obtain ⟨htags, hright, hdelivered⟩ := @tags_apart_iff 5#32 7#32 0#64 0#64 (by decide)
    (by decide) _ (hm.mono fun _ _ => trivial)
  refine ⟨fun heq => ?_, _, hm, rfl, hright.mpr nofun, hdelivered hm⟩
  exact absurd (htags.mpr (fun hfield => absurd hfield (by decide)) heq).1 (by decide)

/-- The tags `0` and `2 ^ 24` are packed alike, and a receive posted with one is delivered a send
with the other. -/
theorem tags_collide :
    makeTag64 ((0x1000000#32).setWidth 64) 0#64 = makeTag64 ((0#32).setWidth 64) 0#64 ∧
      ∃ m, TagRun (fun _ => True) m ∧
        m.delivered = [(Call.tagged .recv 0x1000000#64, Call.tagged .send 0#64)] := by
  refine ⟨by decide, _, .step (.step (.step .start trivial (.send (.tagged .send 0#64) rfl)) trivial
    (.recv (.tagged .recv 0x1000000#64) rfl)) trivial (.deliver (List.mem_singleton_self _)
      (List.mem_singleton_self _) none none ?_), rfl⟩
  exact ⟨_, _, rfl, rfl, by decide⟩

end LibFatbat
