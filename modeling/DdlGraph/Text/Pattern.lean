import DdlGraph.Text.Case
import DdlGraph.Text.Letter

/-!
# Search patterns

Patterns over characters, matched with priorities: of two alternatives the first that leads to a
match of the whole counts, a greedy repetition tries its longest run first and a lazy one its
shortest. A search takes the leftmost match.

A pattern is run in front of a continuation, so that a choice is undone when what follows fails
(`Pattern.run`). A match is a sequence of consecutive parts, one for each pattern of a list
(`endings?`), and a text is cut into gaps and matches (`segments`).

* `Pattern.reaches_of_run`: a match is read off the text, character by character;
* `flatten_segments`: the pieces of a text, put together again, are the text.
-/

namespace DdlGraph.Text

/-- A place in a text: the character before it, what follows, and how many characters were read to
get there. -/
structure Cursor where
  before : Option Char
  rest : List Char
  taken : Nat

/-- The start of a text. -/
def Cursor.ofText (cs : List Char) : Cursor :=
  ⟨none, cs, 0⟩

/-- One character forward, if it is in `p`. -/
def Cursor.step? (p : Char → Bool) (s : Cursor) : Option Cursor :=
  match s.rest with
  | c :: rest => if p c then some ⟨some c, rest, s.taken + 1⟩ else none
  | [] => none

/-- A word character stands on exactly one side. -/
def Cursor.atWordEdge (s : Cursor) : Bool :=
  (s.before.any isWord) != (s.rest.head?.any isWord)

/-- The places that a run of `p` can end at, the farthest first, before those in `found`. -/
def stops (p : Char → Bool) (found : List Cursor) : Option Char → Nat → List Char → List Cursor
  | before, taken, [] => ⟨before, [], taken⟩ :: found
  | before, taken, c :: rest =>
    let found := ⟨before, c :: rest, taken⟩ :: found
    if p c then stops p found (some c) (taken + 1) rest else found

/-- Patterns. -/
inductive Pattern where
  /-- One character of a class. -/
  | one (p : Char → Bool)
  | seq (a b : Pattern)
  /-- `a`, or else `b`. -/
  | either (a b : Pattern)
  /-- `a`, or else nothing. -/
  | optional (a : Pattern)
  /-- The longest run of a class, or a shorter one if what follows needs it. -/
  | span (p : Char → Bool)
  /-- The shortest text up to what follows. -/
  | upTo
  /-- `a` any number of times, as often as possible. -/
  | many (a : Pattern)
  /-- `a` any number of times, as rarely as possible. -/
  | few (a : Pattern)
  | wordEdge
  /-- The start of the text. -/
  | start

namespace Pattern

variable {α : Type}

/-- `step` up to `n` times before `k`, more before fewer. -/
def repeatMany (step : (Cursor → Option α) → Cursor → Option α) (k : Cursor → Option α) :
    Nat → Cursor → Option α
  | 0, s => k s
  | n + 1, s => (step (repeatMany step k n) s).or (k s)

/-- `step` up to `n` times before `k`, fewer before more. -/
def repeatFew (step : (Cursor → Option α) → Cursor → Option α) (k : Cursor → Option α) :
    Nat → Cursor → Option α
  | 0, s => k s
  | n + 1, s => match k s with
    | some a => some a
    | none => step (repeatFew step k n) s

/-- `k` at the first place that it accepts. -/
def nearest (k : Cursor → Option α) (before : Option Char) (taken : Nat) : List Char → Option α
  | [] => k ⟨before, [], taken⟩
  | c :: rest => match k ⟨before, c :: rest, taken⟩ with
    | some a => some a
    | none => nearest k (some c) (taken + 1) rest

/-- **Matching**: the first way through the pattern at `s` after which `k` accepts. -/
def run : Pattern → (Cursor → Option α) → Cursor → Option α
  | .one p, k, s => match s.step? p with
    | some s' => k s'
    | none => none
  | .seq a b, k, s => a.run (b.run k) s
  | .either a b, k, s => match a.run k s with
    | some r => some r
    | none => b.run k s
  | .optional a, k, s => match a.run k s with
    | some r => some r
    | none => k s
  | .span p, k, s => (stops p [] s.before s.taken s.rest).findSome? k
  | .upTo, k, s => nearest k s.before s.taken s.rest
  | .many a, k, s => repeatMany (fun k s => a.run k s) k s.rest.length s
  | .few a, k, s => repeatFew (fun k s => a.run k s) k s.rest.length s
  | .wordEdge, k, s => if s.atWordEdge then k s else none
  | .start, k, s => if s.before.isNone then k s else none

/-- A character. -/
def char (c : Char) : Pattern :=
  .one (· == c)

/-- At least one character of a class, as many as possible. -/
def run1 (p : Char → Bool) : Pattern :=
  .seq (.one p) (.span p)

/-- The patterns one after another. -/
def all : List Pattern → Pattern
  | [] => .span fun _ => false
  | [p] => p
  | p :: q :: ps => .seq p (all (q :: ps))

/-- The first of the patterns that leads to a match. -/
def first : List Pattern → Pattern
  | [] => .one fun _ => false
  | [p] => p
  | p :: q :: ps => .either p (first (q :: ps))

/-- The characters of `s`, in either case. -/
def word (s : String) : Pattern :=
  all (s.toList.map fun c => .one fun d => foldChar d == foldChar c)

/-- At least one white space. -/
def gap : Pattern :=
  run1 isBlank

end Pattern

/-! ## Search -/

/-- Where each of the patterns ends when they match one after another from `s`. -/
def endings? : List Pattern → Cursor → Option (List Cursor)
  | [], _ => some []
  | p :: ps, s => p.run (fun s' => (endings? ps s').map (s' :: ·)) s

/-- The texts between a place that is reached after `taken` characters, with `cs` to follow, and
each of the next places. -/
def between (taken : Nat) (cs : List Char) : List Cursor → List (List Char)
  | [] => []
  | s :: rest => cs.take (s.taken - taken) :: between s.taken s.rest rest

/-- The text that each of the patterns takes when they match one after another from `s`. -/
def matchAt? (ps : List Pattern) (s : Cursor) : Option (List (List Char)) :=
  (endings? ps s).map (between s.taken s.rest)

/-- **Leftmost match** at or after a place: the text passed over, backwards, and the parts. -/
def search? (ps : List Pattern) (passed : List Char) (before : Option Char) (taken : Nat) :
    List Char → Option (List Char × List (List Char))
  | [] => (matchAt? ps ⟨before, [], taken⟩).map (passed, ·)
  | c :: rest => match matchAt? ps ⟨before, c :: rest, taken⟩ with
    | some parts => some (passed, parts)
    | none => search? ps (c :: passed) (some c) (taken + 1) rest

/-- A piece of a text: what no match covers, or the parts of a match. -/
inductive Segment where
  | gap (text : List Char)
  | found (parts : List (List Char))
deriving DecidableEq

/-- The text of a piece. -/
def Segment.text : Segment → List Char
  | .gap text => text
  | .found parts => parts.flatten

/-- **Gaps and matches** of a text that follows the character `before`, from left to right. A match
of the empty text ends the search, the patterns of this library have none. -/
def segmentsAfter (ps : List Pattern) (before : Option Char) (cs : List Char) : List Segment :=
  match search? ps [] before 0 cs with
  | none => [.gap cs]
  | some (passed, parts) =>
    if cs.isEmpty ∨ passed.length + parts.flatten.length = 0 then [.gap cs]
    else
      .gap passed.reverse :: .found parts ::
        segmentsAfter ps (parts.flatten.getLast?.or (passed.head?.or before))
          (cs.drop (passed.length + parts.flatten.length))
termination_by cs.length
decreasing_by
  rename_i h
  obtain ⟨h1, h2⟩ := not_or.1 h
  have : 0 < cs.length := List.length_pos_iff.2 (by simpa using h1)
  simp only [List.length_drop]
  omega

/-- **Gaps and matches** of a text. -/
def segments (ps : List Pattern) (cs : List Char) : List Segment :=
  segmentsAfter ps none cs

/-- The text with every match replaced. -/
def replace (ps : List Pattern) (f : List (List Char) → List Char) (cs : List Char) : List Char :=
  (segments ps cs).flatMap fun
    | .gap text => text
    | .found parts => f parts

/-- The parts of every match. -/
def occurrences (ps : List Pattern) (cs : List Char) : List (List (List Char)) :=
  (segments ps cs).filterMap fun
    | .gap _ => none
    | .found parts => some parts

/-- The text starts with a match; the parts of it. -/
def start? (ps : List Pattern) (cs : List Char) : Option (List (List Char)) :=
  matchAt? ps (.ofText cs)

/-! ## A match is a part of the text -/

/-- `t` is reached from `s` by reading characters. -/
def Cursor.Reaches (s t : Cursor) : Prop :=
  ∃ w, s.rest = w ++ t.rest ∧ t.taken = s.taken + w.length

theorem Cursor.Reaches.refl (s : Cursor) : s.Reaches s :=
  ⟨[], by simp⟩

theorem Cursor.Reaches.trans {s t u : Cursor} (h : s.Reaches t) (g : t.Reaches u) :
    s.Reaches u := by
  obtain ⟨v, hv, nv⟩ := h
  obtain ⟨w, hw, nw⟩ := g
  exact ⟨v ++ w, by simp [hv, hw], by simp [nw, nv, Nat.add_assoc]⟩

theorem Cursor.reaches_of_step {p : Char → Bool} {s t : Cursor} (h : s.step? p = some t) :
    s.Reaches t := by
  unfold Cursor.step? at h
  split at h
  · rename_i c rest hs
    split at h
    · cases h; exact ⟨[c], by simp [hs], rfl⟩
    · simp at h
  · simp at h

theorem reaches_of_mem_stops {p : Char → Bool} {s t : Cursor} {found : List Cursor}
    (hf : ∀ u ∈ found, s.Reaches u) {before : Option Char} {taken : Nat} {rest : List Char}
    (h : s.Reaches ⟨before, rest, taken⟩) (ht : t ∈ stops p found before taken rest) :
    s.Reaches t := by
  induction rest generalizing found before taken with
  | nil =>
    rcases List.mem_cons.1 ht with rfl | ht
    · exact h
    · exact hf t ht
  | cons c rest ih =>
    have hf' : ∀ u ∈ (⟨before, c :: rest, taken⟩ :: found : List Cursor), s.Reaches u := by
      intro u hu
      rcases List.mem_cons.1 hu with rfl | hu
      · exact h
      · exact hf u hu
    unfold stops at ht
    split at ht
    · exact ih hf' (h.trans ⟨[c], by simp⟩) ht
    · exact hf' t ht

theorem reaches_of_nearest {α : Type} {k : Cursor → Option α} {r : α} {before : Option Char}
    {taken : Nat} {cs : List Char} (h : Pattern.nearest k before taken cs = some r) :
    ∃ t, Cursor.Reaches ⟨before, cs, taken⟩ t ∧ k t = some r := by
  induction cs generalizing before taken with
  | nil => exact ⟨_, .refl _, h⟩
  | cons c cs ih =>
    unfold Pattern.nearest at h
    split at h
    · rename_i a ha
      cases h
      exact ⟨_, .refl _, ha⟩
    · obtain ⟨t, ht, hk⟩ := ih h
      exact ⟨t, Cursor.Reaches.trans ⟨[c], by simp⟩ ht, hk⟩

/-- **A run ends further on**: if a pattern leads to an answer, `k` gave it at a place that is
reached from the start. -/
theorem Pattern.reaches_of_run {α : Type} {p : Pattern} {k : Cursor → Option α} {s : Cursor} {r : α}
    (h : p.run k s = some r) : ∃ t, s.Reaches t ∧ k t = some r := by
  induction p generalizing k s with
  | one p =>
    unfold Pattern.run at h
    split at h
    · rename_i t ht
      exact ⟨t, Cursor.reaches_of_step ht, h⟩
    · simp at h
  | seq a b iha ihb =>
    obtain ⟨t, ht, hb⟩ := iha (k := b.run k) h
    obtain ⟨u, hu, hk⟩ := ihb hb
    exact ⟨u, ht.trans hu, hk⟩
  | either a b iha ihb =>
    unfold Pattern.run at h
    split at h
    · rename_i r' hr
      exact iha (hr.trans h)
    · exact ihb h
  | optional a iha =>
    unfold Pattern.run at h
    split at h
    · rename_i r' hr
      exact iha (hr.trans h)
    · exact ⟨s, .refl s, h⟩
  | span p =>
    obtain ⟨t, ht, hk⟩ := List.exists_of_findSome?_eq_some h
    exact ⟨t, reaches_of_mem_stops (by simp) (.refl _) ht, hk⟩
  | upTo => exact reaches_of_nearest h
  | many a iha =>
    unfold Pattern.run at h
    generalize s.rest.length = n at h
    induction n generalizing s with
    | zero => exact ⟨s, .refl s, h⟩
    | succ n ih =>
      unfold Pattern.repeatMany at h
      rcases Option.or_eq_some_iff.1 h with h | ⟨-, h⟩
      · obtain ⟨t, ht, hk⟩ := iha h
        obtain ⟨u, hu, hk⟩ := ih hk
        exact ⟨u, ht.trans hu, hk⟩
      · exact ⟨s, .refl s, h⟩
  | few a iha =>
    unfold Pattern.run at h
    generalize s.rest.length = n at h
    induction n generalizing s with
    | zero => exact ⟨s, .refl s, h⟩
    | succ n ih =>
      unfold repeatFew at h
      split at h
      · rename_i r' hr
        exact ⟨s, .refl s, hr.trans h⟩
      · obtain ⟨t, ht, hk⟩ := iha h
        obtain ⟨u, hu, hk⟩ := ih hk
        exact ⟨u, ht.trans hu, hk⟩
  | wordEdge =>
    unfold Pattern.run at h
    split at h
    · exact ⟨s, .refl s, h⟩
    · simp at h
  | start =>
    unfold Pattern.run at h
    split at h
    · exact ⟨s, .refl s, h⟩
    · simp at h

theorem flatten_between_of_endings {ps : List Pattern} {s : Cursor} {ends : List Cursor}
    (h : endings? ps s = some ends) :
    ∃ rest, s.rest = (between s.taken s.rest ends).flatten ++ rest := by
  induction ps generalizing s ends with
  | nil =>
    cases h
    exact ⟨s.rest, by simp [between]⟩
  | cons p ps ih =>
    obtain ⟨t, ⟨w, hw, hn⟩, hk⟩ := Pattern.reaches_of_run (k := fun s' =>
      (endings? ps s').map (s' :: ·)) h
    obtain ⟨tail, ht, rfl⟩ := Option.map_eq_some_iff.1 hk
    obtain ⟨rest, hr⟩ := ih ht
    refine ⟨rest, ?_⟩
    have : s.rest.take (t.taken - s.taken) = w := by simp [hn, hw]
    simp only [between, List.flatten_cons, this, List.append_assoc, ← hr]
    exact hw

theorem eq_append_of_matchAt {ps : List Pattern} {s : Cursor} {parts : List (List Char)}
    (h : matchAt? ps s = some parts) : ∃ rest, s.rest = parts.flatten ++ rest := by
  obtain ⟨ends, he, rfl⟩ := Option.map_eq_some_iff.1 h
  exact flatten_between_of_endings he

theorem eq_append_of_search {ps : List Pattern} {passed : List Char} {before : Option Char}
    {taken : Nat} {cs : List Char} {passed' : List Char} {parts : List (List Char)}
    (h : search? ps passed before taken cs = some (passed', parts)) :
    ∃ rest, passed.reverse ++ cs = passed'.reverse ++ (parts.flatten ++ rest) := by
  induction cs generalizing passed before taken with
  | nil =>
    obtain ⟨parts', hp, heq⟩ := Option.map_eq_some_iff.1 h
    cases heq
    obtain ⟨rest, hr⟩ := eq_append_of_matchAt hp
    exact ⟨rest, by simpa using hr⟩
  | cons c cs ih =>
    unfold search? at h
    split at h
    · rename_i parts' hp
      cases h
      obtain ⟨rest, hr⟩ := eq_append_of_matchAt hp
      exact ⟨rest, by rw [← hr]⟩
    · obtain ⟨rest, hr⟩ := ih h
      exact ⟨rest, by simpa using hr⟩

/-- **Nothing is lost**: the pieces of a text make it up. -/
theorem flatten_segmentsAfter (ps : List Pattern) (before : Option Char) (cs : List Char) :
    (segmentsAfter ps before cs).flatMap Segment.text = cs := by
  fun_induction segmentsAfter ps before cs with
  | case1 | case2 => simp [Segment.text]
  | case3 before cs passed parts hs h ih =>
    obtain ⟨rest, hr⟩ := eq_append_of_search hs
    simp only [List.reverse_nil, List.nil_append] at hr
    simp only [List.flatMap_cons, Segment.text, ih]
    have hl : passed.length = passed.reverse.length := List.length_reverse.symm
    rw [hr, ← List.append_assoc, ← List.append_assoc, hl, ← List.length_append, List.drop_left]

theorem flatten_segments (ps : List Pattern) (cs : List Char) :
    (segments ps cs).flatMap Segment.text = cs :=
  flatten_segmentsAfter ps none cs

end DdlGraph.Text
