import Mathlib.Tactic
import LibFatbat.Memory.Region

/-!
# Who closes a registration

Programs that make, move and destroy `memory_segment` objects in any order. An object holds a
pointer to the `fid_mr` of its registration, and here it matters which one: a pointer is a
`MrHandle`, and `SegmentObject.resolve` leads back to the values of `LibFatbat.Memory.Region`.

Where libfabric refuses to register a buffer, or to bind or enable its registration, the program
ends in the constructor of a `fabric_error`, so that every registering constructor returns.

Main result: `closed_exactly_once_iff`. No registration has two owners, is closed twice or is closed
while a segment refers to it, whatever the program does. Each is closed by the time all segments are
destroyed if and only if no segment that holds a registration is the target of a move assignment
from another one, which drops the handle.
-/

namespace LibFatbat

/-- A `provider_region*` that is not null. -/
inductive MrHandle
  /-- Obtained by a registering constructor, the `n`-th to get one. -/
  | registered (n : ℕ)
  /-- Made in another way. -/
  | foreign (n : ℕ)
  deriving DecidableEq

/-- A `memory_segment` in memory. -/
structure SegmentObject where
  /-- `region_`. -/
  region : Option MrHandle
  /-- `address_`. -/
  address : Address
  /-- `size_`. -/
  size : BitVec 32
  /-- `base_addr_`. -/
  baseAddr : Address
  deriving DecidableEq

namespace SegmentObject

/-- `memory_segment(region, address, base_address, size)`. -/
def ofParts (region : Option MrHandle) (address baseAddress : Address) (size : BitVec 64) :
    SegmentObject :=
  { region, address, size := size.setWidth 32, baseAddr := baseAddress }

/-- The registering constructor, given the handle that `fi_mr_regattr` returns. -/
def ofRegistration (handle : MrHandle) (buffer : Address) (length : BitVec 64) : SegmentObject :=
  { region := some handle, address := buffer, size := length.setWidth 32, baseAddr := buffer }

/-- What a move makes of its target, which takes over all members. -/
def moved (other : SegmentObject) : SegmentObject :=
  { region := other.region, address := other.address, size := other.size
    baseAddr := other.baseAddr }

/-- What a move leaves of its source. -/
def movedFrom (other : SegmentObject) : SegmentObject :=
  { other with region := none, baseAddr := 0 }

/-- The segment with what libfabric knows of its registration. -/
def resolve (mrs : MrHandle → FidMr) (o : SegmentObject) : MemorySegment where
  region := o.region.map mrs
  address := o.address
  size := o.size
  baseAddr := o.baseAddr

variable {mrs : MrHandle → FidMr}

/-- A move constructor of objects is one of segments. -/
theorem resolve_moveConstruct (other : SegmentObject) :
    (other.moved.resolve mrs, other.movedFrom.resolve mrs) =
      (other.resolve mrs).moveConstruct := rfl

/-- A move assignment of objects is one of segments. -/
theorem resolve_moveAssign (this other : SegmentObject) :
    (other.moved.resolve mrs, other.movedFrom.resolve mrs) =
      (this.resolve mrs).moveAssign (other.resolve mrs) := rfl

/-- The registering constructor of objects is that of segments. -/
theorem resolve_ofRegistration {regattr : Address → BitVec 64 → FidMr} {handle : MrHandle}
    {buffer : Address} {length : BitVec 64} (h : mrs handle = regattr buffer length) :
    (ofRegistration handle buffer length).resolve mrs =
      MemorySegment.ofRegistration regattr buffer length := by
  simp [ofRegistration, resolve, MemorySegment.ofRegistration, h]

end SegmentObject

/-- What a program does with segments. Objects are numbered. -/
inductive SegmentOp
  /-- The registering constructor. -/
  | register (o : ℕ) (buffer : Address) (length : BitVec 64)
  /-- The constructor that is handed a region. -/
  | adopt (o : ℕ) (region : Option MrHandle) (address baseAddress : Address) (size : BitVec 64)
  | moveConstruct (o other : ℕ)
  | moveAssign (o other : ℕ)
  /-- `~memory_segment`. -/
  | destroy (o : ℕ)
  deriving DecidableEq

/-- The segments of a program and what was closed. -/
structure SegmentStore where
  /-- The objects that are alive. -/
  objects : ℕ → Option SegmentObject
  /-- The number of handles that registering constructors have obtained. -/
  nextHandle : ℕ
  /-- The handles passed to `fi_close`, latest first. -/
  closed : List MrHandle

namespace SegmentStore

/-- Before any segment is made. -/
def start : SegmentStore := ⟨fun _ => none, 0, []⟩

/-- An object is made or changed. -/
def put (s : SegmentStore) (o : ℕ) (x : SegmentObject) : SegmentStore :=
  { s with objects := Function.update s.objects o (some x) }

/-- `deregister`, for an object that is then gone. Closing succeeds. -/
def drop (s : SegmentStore) (o : ℕ) (x : SegmentObject) : SegmentStore :=
  { s with objects := Function.update s.objects o none
           closed := x.region.toList ++ s.closed }

/-- One operation, if the objects it needs are alive and those it makes are not. -/
def step (s : SegmentStore) : SegmentOp → Option SegmentStore
  | .register o buffer length =>
    match s.objects o with
    | none =>
      some ({ s with nextHandle := s.nextHandle + 1 }.put o
        (.ofRegistration (.registered s.nextHandle) buffer length))
    | some _ => none
  | .adopt o region address baseAddress size =>
    match s.objects o with
    | none => some (s.put o (.ofParts region address baseAddress size))
    | some _ => none
  | .moveConstruct o other =>
    match s.objects o, s.objects other with
    | none, some y => some ((s.put o y.moved).put other y.movedFrom)
    | _, _ => none
  | .moveAssign o other =>
    match s.objects o, s.objects other with
    | some _, some y =>
      if o = other then some s else some ((s.put o y.moved).put other y.movedFrom)
    | _, _ => none
  | .destroy o =>
    match s.objects o with
    | some x => some (s.drop o x)
    | none => none

/-- A program is run. -/
def run (s : SegmentStore) : List SegmentOp → Option SegmentStore
  | [] => some s
  | op :: ops => (s.step op).bind fun t => run t ops

/-- The object is alive and refers to the `n`-th registration. -/
def Holds (s : SegmentStore) (o n : ℕ) : Prop :=
  ∃ x, s.objects o = some x ∧ x.region = some (.registered n)

/-- The number of times the `n`-th registration was closed. -/
def closings (s : SegmentStore) (n : ℕ) : ℕ := s.closed.count (.registered n)

section Holding

variable {s : SegmentStore} {o o' other n : ℕ} {x y : SegmentObject}

/-- What is held after an object is made or changed. -/
theorem holds_put : (s.put o x).Holds o' n ↔
    o' = o ∧ x.region = some (.registered n) ∨ o' ≠ o ∧ s.Holds o' n := by
  by_cases ho : o' = o
  · subst ho
    simp [Holds, put]
  · simp [Holds, put, ho]

/-- What is held after an object is gone. -/
theorem holds_drop : (s.drop o x).Holds o' n ↔ o' ≠ o ∧ s.Holds o' n := by
  by_cases ho : o' = o
  · subst ho
    simp [Holds, drop]
  · simp [Holds, drop, ho]

/-- A move hands on what its source held. -/
theorem holds_move (hy : s.objects other = some y) (hne : o ≠ other) :
    ((s.put o y.moved).put other y.movedFrom).Holds o' n ↔
      o' = o ∧ s.Holds other n ∨ o' ≠ o ∧ o' ≠ other ∧ s.Holds o' n := by
  have hother : s.Holds other n ↔ y.region = some (.registered n) := by
    simp [Holds, hy]
  rw [holds_put, holds_put, hother]
  by_cases ho' : o' = other
  · subst ho'
    simp [SegmentObject.movedFrom, Ne.symm hne]
  · simp [SegmentObject.moved, ho']

/-- An object that is not alive holds nothing. -/
theorem not_holds_of_none (h : s.objects o = none) : ¬s.Holds o n := by
  rintro ⟨x, hx, -⟩
  rw [h] at hx
  exact absurd hx (by simp)

/-- A new object that refers to another registration, or to none, changes nothing for this one. -/
theorem holds_put_other (ho : s.objects o = none) (hx : x.region ≠ some (.registered n)) :
    (s.put o x).Holds o' n ↔ s.Holds o' n := by
  rw [holds_put]
  constructor
  · rintro (⟨-, hregion⟩ | ⟨-, ho'⟩)
    · exact absurd hregion hx
    · exact ho'
  · intro ho'
    refine .inr ⟨?_, ho'⟩
    rintro rfl
    exact not_holds_of_none ho ho'

/-- Destroying an object closes what it holds. -/
theorem closings_drop (hx : s.objects o = some x) :
    (s.Holds o n → (s.drop o x).closings n = s.closings n + 1) ∧
      (¬s.Holds o n → (s.drop o x).closings n = s.closings n) := by
  have hholds : s.Holds o n ↔ x.region = some (.registered n) := by
    simp [Holds, hx]
  rw [hholds]
  constructor
  · intro hregion
    simp [closings, drop, hregion]
  · intro hregion
    have hnot : MrHandle.registered n ∉ x.region.toList := by
      simpa [Option.mem_toList] using hregion
    rw [closings, drop, List.count_append, List.count_eq_zero_of_not_mem hnot, Nat.zero_add,
      closings]

end Holding

/-- What has become of a registration. -/
inductive Fate
  | unborn
  | held (o : ℕ)
  | closed
  | lost
  deriving DecidableEq

/-- The fate of the `n`-th registration. -/
def HasFate (s : SegmentStore) (n : ℕ) : Fate → Prop
  | .unborn => s.nextHandle ≤ n ∧ (∀ o, ¬s.Holds o n) ∧ s.closings n = 0
  | .held o => n < s.nextHandle ∧ (∀ o', s.Holds o' n ↔ o' = o) ∧ s.closings n = 0
  | .closed => n < s.nextHandle ∧ (∀ o, ¬s.Holds o n) ∧ s.closings n = 1
  | .lost => n < s.nextHandle ∧ (∀ o, ¬s.Holds o n) ∧ s.closings n = 0

/-- The operation makes the program forget the `n`-th registration: it overwrites the handle in a
move assignment. -/
def Drops (s : SegmentStore) (n : ℕ) : SegmentOp → Prop
  | .moveAssign o other => o ≠ other ∧ s.Holds o n
  | .register .. | .adopt .. | .moveConstruct .. | .destroy _ => False

end SegmentStore

/-- A segment is made from a handle that a registering constructor obtained. -/
def SegmentOp.Aliases : SegmentOp → Prop
  | .adopt _ (some (.registered _)) _ _ _ => True
  | _ => False

namespace SegmentStore

variable {s t : SegmentStore} {n : ℕ} {f : Fate}

/-- A step that neither changes who holds a registration nor closes or makes any leaves its fate. -/
theorem HasFate.congr (h : s.HasFate n f) (hnext : t.nextHandle = s.nextHandle)
    (hholds : ∀ o, t.Holds o n ↔ s.Holds o n) (hclosings : t.closings n = s.closings n) :
    t.HasFate n f := by
  cases f <;> simpa only [HasFate, hnext, hholds, hclosings] using h

/-- A move between two objects hands a registration on, or loses the one its target held. -/
theorem HasFate.move {o other : ℕ} {y : SegmentObject} (h : s.HasFate n f)
    (hy : s.objects other = some y) (hne : o ≠ other) :
    ∃ f', ((s.put o y.moved).put other y.movedFrom).HasFate n f' ∧
      (f' = .lost ↔ f = .lost ∨ s.Holds o n) := by
  have hholds : ∀ o', ((s.put o y.moved).put other y.movedFrom).Holds o' n ↔
      o' = o ∧ s.Holds other n ∨ o' ≠ o ∧ o' ≠ other ∧ s.Holds o' n := fun _ => holds_move hy hne
  by_cases hsrc : s.Holds other n
  · -- The source hands it on.
    cases f with
    | held a =>
      obtain ⟨hlt, howner, hclosings⟩ := h
      obtain rfl := (howner other).mp hsrc
      have hnot : ¬s.Holds o n := fun ho => hne ((howner o).mp ho)
      refine ⟨.held o, ⟨hlt, fun o' => ?_, hclosings⟩, by simp [hnot]⟩
      rw [hholds]
      constructor
      · rintro (⟨ho', -⟩ | ⟨-, hne', ho'⟩)
        · exact ho'
        · exact absurd ((howner o').mp ho') hne'
      · exact fun ho' => .inl ⟨ho', hsrc⟩
    | unborn | closed | lost => exact absurd hsrc (h.2.1 other)
  by_cases htgt : s.Holds o n
  · -- The target had it, and now nobody has.
    cases f with
    | held a =>
      obtain ⟨hlt, howner, hclosings⟩ := h
      obtain rfl := (howner o).mp htgt
      refine ⟨.lost, ⟨hlt, fun o' => ?_, hclosings⟩, by simp [htgt]⟩
      rw [hholds]
      rintro (⟨-, hsrc'⟩ | ⟨hne', -, ho'⟩)
      · exact hsrc hsrc'
      · exact hne' ((howner o').mp ho')
    | unborn | closed | lost => exact absurd htgt (h.2.1 o)
  · -- Neither had it, so that whoever has it keeps it.
    refine ⟨f, h.congr rfl (fun o' => ?_) rfl, by simp [htgt]⟩
    rw [hholds]
    constructor
    · rintro (⟨rfl, hsrc'⟩ | ⟨-, -, ho'⟩)
      · exact absurd hsrc' hsrc
      · exact ho'
    · intro ho'
      refine Or.inr ⟨?_, ?_, ho'⟩
      · rintro rfl
        exact htgt ho'
      · rintro rfl
        exact hsrc ho'

/-- Destroying an object closes the registration it holds, and leaves the others. -/
theorem HasFate.drop {o : ℕ} {x : SegmentObject} (h : s.HasFate n f)
    (hx : s.objects o = some x) :
    ∃ f', (s.drop o x).HasFate n f' ∧ (f' = .lost ↔ f = .lost) := by
  by_cases hheld : s.Holds o n
  · cases f with
    | held a =>
      obtain ⟨hlt, howner, hclosings⟩ := h
      obtain rfl := (howner o).mp hheld
      refine ⟨.closed, ⟨hlt, fun o' => ?_, ?_⟩, by simp⟩
      · rw [holds_drop, howner]
        exact fun ho' => ho'.1 ho'.2
      · rw [(closings_drop hx).1 hheld, hclosings]
    | unborn | closed | lost => exact absurd hheld (h.2.1 o)
  · refine ⟨f, h.congr rfl (fun o' => ?_) ((closings_drop hx).2 hheld), Iff.rfl⟩
    rw [holds_drop]
    constructor
    · exact And.right
    · intro ho'
      refine ⟨?_, ho'⟩
      rintro rfl
      exact hheld ho'

/-- A step that obtains a handle leaves the fate of the other registrations. -/
theorem HasFate.obtain_other (h : s.HasFate n f) (hne : s.nextHandle ≠ n)
    (hnext : t.nextHandle = s.nextHandle + 1) (hholds : ∀ o, t.Holds o n ↔ s.Holds o n)
    (hclosings : t.closings n = s.closings n) : t.HasFate n f := by
  cases f with
  | unborn =>
    obtain ⟨hle, hrest⟩ := h
    simp only [HasFate, hnext, hholds, hclosings]
    exact ⟨by omega, hrest⟩
  | held o =>
    obtain ⟨hlt, hrest⟩ := h
    simp only [HasFate, hnext, hholds, hclosings]
    exact ⟨by omega, hrest⟩
  | closed | lost =>
    obtain ⟨hlt, hrest⟩ := h
    simp only [HasFate, hnext, hholds, hclosings]
    exact ⟨by omega, hrest⟩

/-- A handle that no constructor has obtained yet is not held, closed or lost. -/
theorem HasFate.eq_unborn (h : s.HasFate s.nextHandle f) : f = .unborn := by
  cases f with
  | unborn => rfl
  | held | closed | lost => exact absurd h.1 (lt_irrefl _)

/-- A registering constructor gives the new registration to the new object, and leaves the
others. -/
theorem HasFate.register {o : ℕ} {buffer : Address} {length : BitVec 64} (h : s.HasFate n f)
    (hstep : s.step (.register o buffer length) = some t) :
    ∃ f', t.HasFate n f' ∧ (f' = .lost ↔ f = .lost) := by
  cases ho : s.objects o with
  | some x => simp [step, ho] at hstep
  | none =>
    obtain rfl : { s with nextHandle := s.nextHandle + 1 }.put o
        (.ofRegistration (.registered s.nextHandle) buffer length) = t := by
      simpa [step, ho] using hstep
    by_cases hn : s.nextHandle = n
    · -- The registration made is the one in question, and nobody held it before.
      subst hn
      obtain rfl := h.eq_unborn
      refine ⟨.held o, ⟨Nat.lt_succ_self _, fun o' => ?_, h.2.2⟩, by simp⟩
      rw [holds_put]
      constructor
      · rintro (⟨ho', -⟩ | ⟨-, ho'⟩)
        · exact ho'
        · exact absurd ho' (h.2.1 o')
      · exact fun ho' => .inl ⟨ho', rfl⟩
    · have hother : (SegmentObject.ofRegistration (.registered s.nextHandle) buffer
          length).region ≠ some (.registered n) := by
        simpa [SegmentObject.ofRegistration] using hn
      refine ⟨f, h.obtain_other hn rfl (fun o' => ?_) rfl, Iff.rfl⟩
      exact holds_put_other (s := { s with nextHandle := s.nextHandle + 1 }) ho hother

/-- Every step that does not alias a registration takes it from one fate to another, and loses it
exactly when it drops it. -/
theorem HasFate.step {op : SegmentOp} (h : s.HasFate n f) (halias : ¬op.Aliases)
    (hstep : s.step op = some t) :
    ∃ f', t.HasFate n f' ∧ (f' = .lost ↔ f = .lost ∨ s.Drops n op) := by
  cases op with
  | register o buffer length =>
    obtain ⟨f', hf', hlost⟩ := h.register hstep
    exact ⟨f', hf', by simp [Drops, hlost]⟩
  | adopt o region address baseAddress size =>
    cases ho : s.objects o with
    | some x => simp [SegmentStore.step, ho] at hstep
    | none =>
      obtain rfl : s.put o (.ofParts region address baseAddress size) = t := by
        simpa [SegmentStore.step, ho] using hstep
      -- an adopted region that aliases a registered one is what `halias` excludes
      have hregion : region ≠ some (.registered n) := by
        rintro rfl
        exact halias trivial
      exact ⟨f, h.congr rfl (fun _ => holds_put_other ho hregion) rfl, by simp [Drops]⟩
  | moveConstruct o other =>
    cases ho : s.objects o with
    | some x => simp [SegmentStore.step, ho] at hstep
    | none =>
      cases hy : s.objects other with
      | none => simp [SegmentStore.step, ho, hy] at hstep
      | some y =>
        obtain rfl : (s.put o y.moved).put other y.movedFrom = t := by
          simpa [SegmentStore.step, ho, hy] using hstep
        have hne : o ≠ other := by
          rintro rfl
          rw [ho] at hy
          exact absurd hy (by simp)
        obtain ⟨f', hf', hlost⟩ := h.move hy hne
        refine ⟨f', hf', ?_⟩
        -- a new object had no registration that could be dropped
        rw [hlost]
        simp [Drops, not_holds_of_none ho]
  | moveAssign o other =>
    cases ho : s.objects o with
    | none => simp [SegmentStore.step, ho] at hstep
    | some x =>
      cases hy : s.objects other with
      | none => simp [SegmentStore.step, ho, hy] at hstep
      | some y =>
        by_cases hne : o = other
        · -- the assignment tests for this
          obtain rfl : s = t := by simpa [SegmentStore.step, ho, hy, hne] using hstep
          exact ⟨f, h, by simp [Drops, hne]⟩
        · obtain rfl : (s.put o y.moved).put other y.movedFrom = t := by
            simpa [SegmentStore.step, ho, hy, hne] using hstep
          obtain ⟨f', hf', hlost⟩ := h.move hy hne
          refine ⟨f', hf', ?_⟩
          -- what the target had is dropped, and not closed
          rw [hlost]
          simp [Drops, hne]
  | destroy o =>
    cases ho : s.objects o with
    | none => simp [SegmentStore.step, ho] at hstep
    | some x =>
      obtain rfl : s.drop o x = t := by simpa [SegmentStore.step, ho] using hstep
      obtain ⟨f', hf', hlost⟩ := h.drop ho
      exact ⟨f', hf', by simp [Drops, hlost]⟩

/-- Somewhere in a program that is run from `s`, the `n`-th registration is dropped. -/
def DroppedBy (s : SegmentStore) (n : ℕ) (prog : List SegmentOp) : Prop :=
  ∃ pre op post t, prog = pre ++ op :: post ∧ s.run pre = some t ∧ t.Drops n op

/-- A program drops a registration in its first step or later. -/
theorem droppedBy_cons {op : SegmentOp} {prog : List SegmentOp} (hstep : s.step op = some t) :
    s.DroppedBy n (op :: prog) ↔ s.Drops n op ∨ t.DroppedBy n prog := by
  constructor
  · rintro ⟨pre, op', post, u, hsplit, hrun, hdrop⟩
    -- the dropping step is the first one if nothing comes before it
    cases pre with
    | nil =>
      obtain ⟨rfl, rfl⟩ := List.cons.inj hsplit
      obtain rfl : s = u := by simpa [run] using hrun
      exact .inl hdrop
    | cons op'' pre =>
      obtain ⟨rfl, rfl⟩ := List.cons.inj hsplit
      rw [run, hstep, Option.bind_some] at hrun
      exact .inr ⟨pre, op', post, u, rfl, hrun, hdrop⟩
  · rintro (hdrop | ⟨pre, op', post, u, rfl, hrun, hdrop⟩)
    · exact ⟨[], op, prog, s, rfl, rfl, hdrop⟩
    · refine ⟨op :: pre, op', post, u, rfl, ?_, hdrop⟩
      rw [run, hstep, Option.bind_some, hrun]

/-- A program without aliases takes every registration from one fate to another, and loses exactly
those that it drops. -/
theorem HasFate.run {prog : List SegmentOp} (h : s.HasFate n f)
    (halias : ∀ op ∈ prog, ¬op.Aliases) (hrun : s.run prog = some t) :
    ∃ f', t.HasFate n f' ∧ (f' = .lost ↔ f = .lost ∨ s.DroppedBy n prog) := by
  induction prog generalizing s f with
  | nil =>
    obtain rfl : s = t := by simpa [SegmentStore.run] using hrun
    refine ⟨f, h, ?_⟩
    have hnot : ¬s.DroppedBy n [] := by
      rintro ⟨pre, op, post, u, hsplit, -⟩
      exact absurd hsplit (by simp)
    simp [hnot]
  | cons op prog ih =>
    obtain ⟨hop, hprog⟩ := List.forall_mem_cons.mp halias
    cases hstep : s.step op with
    | none => simp [SegmentStore.run, hstep] at hrun
    | some u =>
      rw [SegmentStore.run, hstep, Option.bind_some] at hrun
      -- it is lost in the end if it is lost after the first step or in the others
      obtain ⟨f₁, hf₁, hlost₁⟩ := h.step hop hstep
      obtain ⟨f₂, hf₂, hlost₂⟩ := ih hf₁ hprog hrun
      refine ⟨f₂, hf₂, ?_⟩
      rw [hlost₂, hlost₁, droppedBy_cons hstep, or_assoc]

/-- Nothing is held or closed before any segment is made. -/
theorem hasFate_start (n : ℕ) : start.HasFate n .unborn :=
  ⟨Nat.zero_le n, fun _ => not_holds_of_none rfl, rfl⟩

end SegmentStore

open SegmentStore

/-- A segment that refers to a registration is the only one, and the registration is open; it is
closed at most once. -/
def SegmentStore.Owned (s : SegmentStore) : Prop :=
  ∀ n, (∀ o o', s.Holds o n → s.Holds o' n → o = o') ∧
    (∀ o, s.Holds o n → s.closings n = 0) ∧ s.closings n ≤ 1

/-- Whatever has become of a registration, it has at most one owner and is closed at most once. -/
theorem SegmentStore.HasFate.owned {s : SegmentStore} {n : ℕ} {f : Fate} (h : s.HasFate n f) :
    (∀ o o', s.Holds o n → s.Holds o' n → o = o') ∧
      (∀ o, s.Holds o n → s.closings n = 0) ∧ s.closings n ≤ 1 := by
  cases f with
  | held a =>
    obtain ⟨-, howner, hclosings⟩ := h
    refine ⟨fun o o' ho ho' => ?_, fun _ _ => hclosings, hclosings ▸ Nat.zero_le 1⟩
    rw [(howner o).mp ho, (howner o').mp ho']
  | unborn | closed | lost =>
    obtain ⟨-, hnone, hclosings⟩ := h
    exact ⟨fun o _ ho => absurd ho (hnone o), fun o ho => absurd ho (hnone o), by omega⟩

/-- In every run of a program that makes no segment from the handle of another, each registration
has at most one owner at any moment, is open while a segment refers to it and is closed at most
once. When all segments are destroyed, each was closed exactly once if and only if no step
dropped one. -/
theorem closed_exactly_once_iff {prog : List SegmentOp} {s : SegmentStore}
    (halias : ∀ op ∈ prog, ¬op.Aliases) (hrun : SegmentStore.start.run prog = some s) :
    s.Owned ∧ ((∀ o, s.objects o = none) →
      ((∀ n < s.nextHandle, s.closings n = 1) ↔
        ∀ n, ¬SegmentStore.start.DroppedBy n prog)) := by
  have hfate : ∀ n, ∃ f, s.HasFate n f ∧
      (f = .lost ↔ SegmentStore.start.DroppedBy n prog) := by
    intro n
    obtain ⟨f, hf, hlost⟩ := (hasFate_start n).run halias hrun
    exact ⟨f, hf, by simpa using hlost⟩
  refine ⟨fun n => ?_, fun hdead => ⟨fun hclosed n hdropped => ?_, fun hkept n hn => ?_⟩⟩
  · obtain ⟨f, hf, -⟩ := hfate n
    exact hf.owned
  · obtain ⟨f, hf, hlost⟩ := hfate n
    obtain rfl := hlost.mpr hdropped
    obtain ⟨hlt, -, hzero⟩ := hf
    rw [hclosed n hlt] at hzero
    exact absurd hzero (by decide)
  · obtain ⟨f, hf, hlost⟩ := hfate n
    cases f with
    | unborn => exact absurd hf.1 (Nat.not_le.mpr hn)
    | held o => exact absurd ((hf.2.1 o).mpr rfl) (not_holds_of_none (hdead o))
    | closed => exact hf.2.2
    | lost => exact absurd (hlost.mp rfl) (hkept n)

/-- A segment is moved, assigned to itself and destroyed: its registration is closed once, so no
step dropped it. -/
theorem closed_once_after_move :
    ∃ s, SegmentStore.start.run [.register 0 0x1000 64, .moveConstruct 1 0,
        .moveAssign 1 1, .destroy 0, .destroy 1] = some s ∧ s.Owned ∧
      ∀ n, ¬SegmentStore.start.DroppedBy n [.register 0 0x1000 64, .moveConstruct 1 0,
        .moveAssign 1 1, .destroy 0, .destroy 1] := by
  have halias : ∀ op ∈ [SegmentOp.register 0 0x1000 64, .moveConstruct 1 0,
      .moveAssign 1 1, .destroy 0, .destroy 1], ¬op.Aliases := by
    simp [SegmentOp.Aliases]
  obtain ⟨howned, hclosed⟩ := closed_exactly_once_iff halias rfl
  refine ⟨_, rfl, howned, (hclosed fun o => ?_).mp fun n hn => ?_⟩
  · rcases o with _ | _ | o <;> rfl
  · obtain rfl : n = 0 := Nat.lt_one_iff.mp hn
    rfl

/-- A segment that holds a registration is assigned another one: when both are destroyed, the first
registration is still open. -/
theorem overwritten_never_closed :
    ∃ s, SegmentStore.start.run [.register 0 0x1000 64, .register 1 0x2000 64,
        .moveAssign 0 1, .destroy 0, .destroy 1] = some s ∧
      (∀ o, s.objects o = none) ∧ s.nextHandle = 2 ∧ s.closings 0 = 0 ∧ s.closings 1 = 1 := by
  refine ⟨_, rfl, fun o => ?_, rfl, rfl, rfl⟩
  rcases o with _ | _ | o <;> rfl

end LibFatbat
