import Mathlib.Data.List.Basic
import Mathlib.Tactic.Common

/-!
# Regular expressions with groups

The part of Python's `re` that patterns for lines of text are made of: classes of characters, greedy
repetition of a class, alternatives, named groups and the end of the text. Matching tries the
possibilities in order, backtracking when what follows does not match, and the first match counts.
Here it gives all of them, in that order.

Main results: `captures_seq_star`, `captures_seq_plus` and `captures_seq_group_plus`. A greedy
repetition that is followed by something else takes the whole run of its class, and there is nothing
to backtrack to.
-/

namespace Text

/-- Regular expressions. A class of characters is a test. -/
inductive Regex
  /-- One character of each class, in order. -/
  | chars (classes : List (Char → Bool))
  /-- A class, repeated with `*`. -/
  | star (p : Char → Bool)
  /-- A class, repeated with `+`. -/
  | plus (p : Char → Bool)
  /-- `$`, the end of the text, or the place before a newline at the end of it. -/
  | eos
  | alt (r s : Regex)
  | seq (r s : Regex)
  /-- `(?P<name>r)`. -/
  | group (name : String) (r : Regex)

/-- A match of the beginning of a text. -/
structure Match where
  text : List Char
  groups : List (String × List Char)
  /-- The text that is left. -/
  rest : List Char

/-- What is left after one character of each class. -/
def dropChars : List (Char → Bool) → List Char → Option (List Char)
  | [], cs => some cs
  | _ :: _, [] => none
  | p :: ps, c :: cs => if p c then dropChars ps cs else none

/-- The ways to take characters of a class from the beginning of a text, the longest first. -/
def spans (p : Char → Bool) : List Char → List (List Char × List Char)
  | [] => [([], [])]
  | c :: cs =>
    if p c then (spans p cs).map (fun s => (c :: s.1, s.2)) ++ [([], c :: cs)] else [([], c :: cs)]

/-- A match that comes after another. -/
def Match.after (m m' : Match) : Match := ⟨m.text ++ m'.text, m.groups ++ m'.groups, m'.rest⟩

namespace Regex

/-- The matches, in the order in which they are tried. -/
def run : Regex → List Char → List Match
  | chars ps, cs =>
    match dropChars ps cs with
    | some rest => [⟨cs.take ps.length, [], rest⟩]
    | none => []
  | star p, cs => (spans p cs).map fun s => ⟨s.1, [], s.2⟩
  | plus p, cs => ((spans p cs).filter fun s => !s.1.isEmpty).map fun s => ⟨s.1, [], s.2⟩
  | eos, cs => if cs = [] ∨ cs = ['\n'] then [⟨[], [], cs⟩] else []
  | alt r s, cs => run r cs ++ run s cs
  | seq r s, cs => (run r cs).flatMap fun m => (run s m.rest).map m.after
  | group name r, cs => (run r cs).map fun m => { m with groups := (name, m.text) :: m.groups }

/-- The groups of each match. -/
def captures (r : Regex) (cs : List Char) : List (List (String × List Char)) :=
  (run r cs).map Match.groups

/-- `match`: the groups of the first match, if there is one. -/
def match? (r : Regex) (cs : List Char) : Option (List (String × List Char)) :=
  (captures r cs).head?

/-- A text, to the letter. -/
def text (s : List Char) : Regex := chars (s.map fun d c => c == d)

/-- A text, regardless of case. -/
def textIgnoreCase (s : List Char) : Regex := chars (s.map fun d c => c.toLower == d.toLower)

variable {r s : Regex} {p : Char → Bool} {xs rest : List Char} {c : Char} {name : String}

/-! ### Sequences -/

theorem captures_seq (r s : Regex) (cs : List Char) :
    captures (seq r s) cs =
      (run r cs).flatMap fun m => (captures s m.rest).map (m.groups ++ ·) := by
  unfold captures
  rw [run, List.map_flatMap]
  refine List.flatMap_congr fun m _ => ?_
  rw [List.map_map, List.map_map]
  rfl

theorem dropChars_map (s : List Char) (rest : List Char) :
    dropChars (s.map fun d c => c == d) (s ++ rest) = some rest := by
  induction s with
  | nil => rfl
  | cons c s ih =>
    rw [List.map_cons, List.cons_append, dropChars, if_pos (beq_self_eq_true c), ih]

/-- A text that is there, to the letter. -/
theorem captures_seq_text (s : List Char) (r : Regex) (rest : List Char) :
    captures (seq (text s) r) (s ++ rest) = captures r rest := by
  rw [captures_seq, text, run, dropChars_map]
  simp

/-! ### Repetition -/

/-- A text that does not begin with a character of a class. -/
def NotNext (p : Char → Bool) (cs : List Char) : Prop := ∀ c ∈ cs.head?, p c = false

theorem notNext_append {s : List Char} (h : s.head?.map p = some false) (rest : List Char) :
    NotNext p (s ++ rest) := by
  cases s with
  | nil => cases h
  | cons d s =>
    rintro c ⟨⟩
    exact Option.some.inj h

theorem spans_of_notNext (h : NotNext p rest) : spans p rest = [([], rest)] := by
  cases rest with
  | nil => rfl
  | cons c cs =>
    rw [spans, if_neg (ne_true_of_eq_false (h c rfl))]

/-- Of the ways to take characters of a class, the longest is all that counts, if what follows
cannot begin with a character of the run. -/
theorem flatMap_spans {α : Type} {f : List Char × List Char → List α}
    (hxs : ∀ c ∈ xs, p c = true) (hrest : NotNext p rest)
    (hf : ∀ y c cs, c ∈ xs → f (y, c :: cs) = []) :
    (spans p (xs ++ rest)).flatMap f = f (xs, rest) := by
  induction xs generalizing f with
  | nil => rw [List.nil_append, spans_of_notNext hrest, List.flatMap_singleton]
  | cons c xs ih =>
    obtain ⟨hc, hxs⟩ := List.forall_mem_cons.mp hxs
    -- a shorter run leaves what follows to begin with `c`
    have hshorter : ∀ y d cs, d ∈ xs → f (c :: y, d :: cs) = [] :=
      fun y d cs hd => hf (c :: y) d cs (List.mem_cons_of_mem c hd)
    rw [List.cons_append, spans, if_pos hc, List.flatMap_append, List.flatMap_map, ih hxs hshorter,
      List.flatMap_singleton, hf [] c _ List.mem_cons_self, List.append_nil]

/-- `r` matches no text that begins with `c`. -/
def Rejects (r : Regex) (c : Char) : Prop := ∀ cs, run r (c :: cs) = []

theorem Rejects.captures (h : r.Rejects c) (cs : List Char) : captures r (c :: cs) = [] := by
  rw [Regex.captures, h cs, List.map_nil]

/-- A greedy repetition of a class, as many times as there are characters of it. -/
theorem captures_seq_star (hxs : ∀ c ∈ xs, p c = true) (hrest : NotNext p rest)
    (hr : ∀ c ∈ xs, r.Rejects c) :
    captures (seq (star p) r) (xs ++ rest) = captures r rest := by
  rw [captures_seq, run, List.flatMap_map, flatMap_spans hxs hrest]
  · exact List.map_id _
  · intro y c cs hc
    show List.map _ (captures r (c :: cs)) = []
    rw [(hr c hc).captures, List.map_nil]

/-- A repetition that there is nothing for. -/
theorem captures_seq_star_of_notNext (h : NotNext p rest) :
    captures (seq (star p) r) rest = captures r rest := by
  have hnone : captures (seq (star p) r) ([] ++ rest) = captures r rest :=
    captures_seq_star nofun h nofun
  rwa [List.nil_append] at hnone

/-- A repetition that takes what it can take, and adds groups to those of what follows. -/
theorem captures_seq_of_spans {q : Regex} (groups : List Char → List (String × List Char))
    (hq : ∀ cs, run q cs =
      ((spans p cs).filter fun s => !s.1.isEmpty).map fun s => ⟨s.1, groups s.1, s.2⟩)
    (hxs : ∀ c ∈ xs, p c = true) (hne : xs ≠ []) (hrest : NotNext p rest)
    (hr : ∀ c ∈ xs, r.Rejects c) :
    captures (seq q r) (xs ++ rest) = (captures r rest).map (groups xs ++ ·) := by
  let f : List Char × List Char → List (List (String × List Char)) := fun s =>
    if !s.1.isEmpty then (captures r s.2).map (groups s.1 ++ ·) else []
  -- what is left out of the run, `r` cannot begin with
  have hf : ∀ y c cs, c ∈ xs → f (y, c :: cs) = [] := by
    intro y c cs hc
    show (if !y.isEmpty then (captures r (c :: cs)).map (groups y ++ ·) else []) = []
    rw [(hr c hc).captures, List.map_nil, ite_self]
  have hsplit : captures (seq q r) (xs ++ rest) = (spans p (xs ++ rest)).flatMap f := by
    rw [captures_seq, hq, List.flatMap_map]
    induction spans p (xs ++ rest) with
    | nil => rfl
    | cons s ss ih =>
      rw [List.filter_cons, List.flatMap_cons, ← ih]
      show List.flatMap _ (if _ then _ else _) = (if _ then _ else _) ++ _
      split
      · rw [List.flatMap_cons]
      · rw [List.nil_append]
  have hnonempty : (!xs.isEmpty) = true := by
    rw [Bool.not_eq_true', List.isEmpty_eq_false_iff]
    exact hne
  rw [hsplit, flatMap_spans hxs hrest hf]
  exact if_pos hnonempty

theorem captures_seq_plus (hxs : ∀ c ∈ xs, p c = true) (hne : xs ≠ []) (hrest : NotNext p rest)
    (hr : ∀ c ∈ xs, r.Rejects c) :
    captures (seq (plus p) r) (xs ++ rest) = captures r rest :=
  (captures_seq_of_spans (fun _ => []) (fun _ => rfl) hxs hne hrest hr).trans (List.map_id _)

theorem captures_seq_group_plus (hxs : ∀ c ∈ xs, p c = true) (hne : xs ≠ [])
    (hrest : NotNext p rest) (hr : ∀ c ∈ xs, r.Rejects c) :
    captures (seq (group name (plus p)) r) (xs ++ rest) =
      (captures r rest).map ((name, xs) :: ·) :=
  captures_seq_of_spans (fun xs => [(name, xs)]) (fun _ => by rw [run, run, List.map_map]; rfl)
    hxs hne hrest hr

/-- A repetition in a group, which may be of nothing. -/
theorem captures_seq_group_star (hxs : ∀ c ∈ xs, p c = true) (hrest : NotNext p rest)
    (hr : ∀ c ∈ xs, r.Rejects c) :
    captures (seq (group name (star p)) r) (xs ++ rest) =
      (captures r rest).map ((name, xs) :: ·) := by
  rw [captures_seq, run, run, List.map_map, List.flatMap_map, flatMap_spans hxs hrest]
  · rfl
  · intro y c cs hc
    show List.map _ (captures r (c :: cs)) = []
    rw [(hr c hc).captures, List.map_nil]

/-! ### What cannot begin a match -/

theorem rejects_chars {q : Char → Bool} (h : q c = false) (qs : List (Char → Bool)) :
    (chars (q :: qs)).Rejects c := by
  intro cs
  rw [run, dropChars, if_neg (ne_true_of_eq_false h)]

/-- A text that does not begin with a character of a class does not match one that does. -/
theorem rejects_text {s : List Char} (h : s.head?.map p = some false) (hc : p c = true) :
    (text s).Rejects c := by
  cases s with
  | nil => cases h
  | cons d s =>
    have hne : c ≠ d := by
      rintro rfl
      exact absurd ((Option.some.inj h).symm.trans hc) Bool.false_ne_true
    exact rejects_chars (q := fun e => e == d) (beq_eq_false_iff_ne.mpr hne) _

theorem rejects_plus (h : p c = false) : (plus p).Rejects c := by
  intro cs
  rw [run, spans, if_neg (ne_true_of_eq_false h)]
  rfl

theorem Rejects.group (h : r.Rejects c) : (group name r).Rejects c := by
  intro cs
  rw [run, h cs, List.map_nil]

theorem Rejects.seq (h : r.Rejects c) : (seq r s).Rejects c := by
  intro cs
  rw [run, h cs, List.flatMap_nil]

theorem rejects_seq_star (hp : p c = false) (h : r.Rejects c) :
    (Regex.seq (star p) r).Rejects c := by
  intro cs
  -- the repetition takes nothing, and what follows begins with `c`
  rw [run, run, spans, if_neg (ne_true_of_eq_false hp)]
  simp [h cs]

theorem rejects_seq_group_star (hp : p c = false) (h : r.Rejects c) :
    (Regex.seq (Regex.group name (star p)) r).Rejects c := by
  intro cs
  rw [run, run, run, spans, if_neg (ne_true_of_eq_false hp)]
  simp [h cs]

theorem rejects_eos (h : c ≠ '\n') : eos.Rejects c := by
  intro cs
  have hcs : ¬ (c :: cs = [] ∨ c :: cs = ['\n']) := by
    rintro (hnil | hnewline)
    · exact List.cons_ne_nil c cs hnil
    · exact h (List.cons_eq_cons.mp hnewline).1
  rw [run, if_neg hcs]

/-- A text that begins with a character that is rejected does not match. -/
theorem match?_of_rejects {cs : List Char} (h : ∀ c ∈ cs.head?, r.Rejects c) (hne : cs ≠ []) :
    r.match? cs = none := by
  cases cs with
  | nil => exact absurd rfl hne
  | cons c cs => rw [match?, (h c rfl).captures, List.head?_nil]

end Regex

end Text
