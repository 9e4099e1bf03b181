import DdlGraph.Text.Pattern
import Mathlib.Data.List.Forall2

/-!
# What patterns take

A match is a text that the pattern can take (`Pattern.Takes`), whatever stands around it. This says
less than the search does, which also looks at its surroundings and at what is preferred, but it is
read off the pattern, from left to right.

* `Pattern.takes_of_run`: what a run reads;
* `takes_of_mem_segments`: the parts of every match in a text.
-/

namespace DdlGraph.Text

/-! ## Patterns -/

namespace Pattern

/-- **The pattern can take the text.** -/
def Takes : Pattern → List Char → Prop
  | .one p, w => ∃ c, w = [c] ∧ p c = true
  | .seq a b, w => ∃ v v', w = v ++ v' ∧ a.Takes v ∧ b.Takes v'
  | .either a b, w => a.Takes w ∨ b.Takes w
  | .optional a, w => a.Takes w ∨ w = []
  | .span p, w => ∀ c ∈ w, p c = true
  | .upTo, _ => True
  | .many a, w | .few a, w => ∃ vs : List (List Char), w = vs.flatten ∧ ∀ v ∈ vs, a.Takes v
  | .wordEdge, w | .start, w => w = []

end Pattern

/-- The text `w` stands between two places. -/
structure Cursor.Spans (s t : Cursor) (w : List Char) : Prop where
  rest : s.rest = w ++ t.rest
  taken : t.taken = s.taken + w.length

theorem Cursor.Spans.nil (s : Cursor) : s.Spans s [] :=
  ⟨rfl, rfl⟩

theorem Cursor.Spans.append {s t u : Cursor} {v w : List Char} (h : s.Spans t v)
    (h' : t.Spans u w) : s.Spans u (v ++ w) where
  rest := by
    rw [h.rest, h'.rest, List.append_assoc]
  taken := by
    rw [h'.taken, h.taken, List.length_append, Nat.add_assoc]

theorem spans_of_step {p : Char → Bool} {s t : Cursor} (h : s.step? p = some t) :
    ∃ c, p c = true ∧ s.Spans t [c] := by
  unfold Cursor.step? at h
  split at h
  · rename_i c rest hs
    split at h
    · rename_i hp
      cases h
      exact ⟨c, hp, hs, rfl⟩
    · cases h
  · cases h

theorem spans_of_mem_stops {p : Char → Bool} {s t : Cursor} {found : List Cursor}
    (hf : ∀ u ∈ found, ∃ w, s.Spans u w ∧ ∀ c ∈ w, p c = true) {before : Option Char} {taken : Nat}
    {rest w : List Char} (h : s.Spans ⟨before, rest, taken⟩ w) (hw : ∀ c ∈ w, p c = true)
    (ht : t ∈ stops p found before taken rest) : ∃ w, s.Spans t w ∧ ∀ c ∈ w, p c = true := by
  induction rest generalizing found before taken w with
  | nil =>
    rcases List.mem_cons.1 ht with rfl | ht
    · exact ⟨w, h, hw⟩
    · exact hf t ht
  | cons c rest ih =>
    have hf' : ∀ u ∈ (⟨before, c :: rest, taken⟩ :: found : List Cursor),
        ∃ w, s.Spans u w ∧ ∀ c ∈ w, p c = true := by
      intro u hu
      rcases List.mem_cons.1 hu with rfl | hu
      · exact ⟨w, h, hw⟩
      · exact hf u hu
    unfold stops at ht
    split at ht
    · rename_i hc
      have hnext : s.Spans ⟨some c, rest, taken + 1⟩ (w ++ [c]) := h.append ⟨rfl, rfl⟩
      refine ih hf' hnext (fun d hd => ?_) ht
      rcases List.mem_append.1 hd with hd | hd
      · exact hw d hd
      · exact List.mem_singleton.1 hd ▸ hc
    · exact hf' t ht

theorem spans_of_nearest {α : Type} {k : Cursor → Option α} {r : α} {before : Option Char}
    {taken : Nat} {cs : List Char} (h : Pattern.nearest k before taken cs = some r) :
    ∃ w t, Cursor.Spans ⟨before, cs, taken⟩ t w ∧ k t = some r := by
  induction cs generalizing before taken with
  | nil => exact ⟨_, _, .nil _, h⟩
  | cons c cs ih =>
    unfold Pattern.nearest at h
    split at h
    · rename_i a ha
      cases h
      exact ⟨_, _, .nil _, ha⟩
    · obtain ⟨w, t, ht, hk⟩ := ih h
      have hone : Cursor.Spans ⟨before, c :: cs, taken⟩ ⟨some c, cs, taken + 1⟩ [c] := ⟨rfl, rfl⟩
      exact ⟨_, t, hone.append ht, hk⟩

namespace Pattern

variable {α : Type}

/-- A repetition takes a text for each of its turns. -/
theorem takes_of_repeatMany {a : Pattern}
    (ha : ∀ {k : Cursor → Option α} {s : Cursor} {r : α}, a.run k s = some r →
      ∃ w t, s.Spans t w ∧ a.Takes w ∧ k t = some r)
    {k : Cursor → Option α} {n : Nat} {s : Cursor} {r : α}
    (h : repeatMany (fun k s => a.run k s) k n s = some r) :
    ∃ (vs : List (List Char)) (t : Cursor), s.Spans t vs.flatten ∧ (∀ v ∈ vs, a.Takes v) ∧ k t = some r := by
  induction n generalizing s with
  | zero => exact ⟨[], s, .nil s, fun _ hv => absurd hv List.not_mem_nil, h⟩
  | succ n ih =>
    unfold repeatMany at h
    rcases Option.or_eq_some_iff.1 h with h | ⟨-, h⟩
    · obtain ⟨w, t, ht, hw, hk⟩ := ha h
      obtain ⟨vs, u, hu, hvs, hk⟩ := ih hk
      exact ⟨w :: vs, u, ht.append hu, List.forall_mem_cons.2 ⟨hw, hvs⟩, hk⟩
    · exact ⟨[], s, .nil s, fun _ hv => absurd hv List.not_mem_nil, h⟩

theorem takes_of_repeatFew {a : Pattern}
    (ha : ∀ {k : Cursor → Option α} {s : Cursor} {r : α}, a.run k s = some r →
      ∃ w t, s.Spans t w ∧ a.Takes w ∧ k t = some r)
    {k : Cursor → Option α} {n : Nat} {s : Cursor} {r : α}
    (h : repeatFew (fun k s => a.run k s) k n s = some r) :
    ∃ (vs : List (List Char)) (t : Cursor), s.Spans t vs.flatten ∧ (∀ v ∈ vs, a.Takes v) ∧ k t = some r := by
  induction n generalizing s with
  | zero => exact ⟨[], s, .nil s, fun _ hv => absurd hv List.not_mem_nil, h⟩
  | succ n ih =>
    unfold repeatFew at h
    split at h
    · rename_i r' hr
      exact ⟨[], s, .nil s, fun _ hv => absurd hv List.not_mem_nil, hr.trans h⟩
    · obtain ⟨w, t, ht, hw, hk⟩ := ha h
      obtain ⟨vs, u, hu, hvs, hk⟩ := ih hk
      exact ⟨w :: vs, u, ht.append hu, List.forall_mem_cons.2 ⟨hw, hvs⟩, hk⟩

/-- **A run takes a text** that its pattern can take, and goes on behind it. -/
theorem takes_of_run {p : Pattern} {k : Cursor → Option α} {s : Cursor} {r : α}
    (h : p.run k s = some r) : ∃ w t, s.Spans t w ∧ p.Takes w ∧ k t = some r := by
  induction p generalizing k s r with
  | one p =>
    unfold run at h
    split at h
    · rename_i t ht
      obtain ⟨c, hc, hs⟩ := spans_of_step ht
      exact ⟨[c], t, hs, ⟨c, rfl, hc⟩, h⟩
    · cases h
  | seq a b iha ihb =>
    obtain ⟨v, t, ht, hv, hb⟩ := iha (k := b.run k) h
    obtain ⟨v', u, hu, hv', hk⟩ := ihb hb
    exact ⟨v ++ v', u, ht.append hu, ⟨v, v', rfl, hv, hv'⟩, hk⟩
  | either a b iha ihb =>
    unfold run at h
    split at h
    · rename_i r' hr
      obtain ⟨w, t, ht, hw, hk⟩ := iha (hr.trans h)
      exact ⟨w, t, ht, .inl hw, hk⟩
    · obtain ⟨w, t, ht, hw, hk⟩ := ihb h
      exact ⟨w, t, ht, .inr hw, hk⟩
  | optional a iha =>
    unfold run at h
    split at h
    · rename_i r' hr
      obtain ⟨w, t, ht, hw, hk⟩ := iha (hr.trans h)
      exact ⟨w, t, ht, .inl hw, hk⟩
    · exact ⟨[], s, .nil s, .inr rfl, h⟩
  | span p =>
    obtain ⟨t, ht, hk⟩ := List.exists_of_findSome?_eq_some h
    obtain ⟨w, hs, hw⟩ := spans_of_mem_stops (fun _ hu => absurd hu List.not_mem_nil)
      (Cursor.Spans.nil s) (fun _ hd => absurd hd List.not_mem_nil) ht
    exact ⟨w, t, hs, hw, hk⟩
  | upTo =>
    obtain ⟨w, t, ht, hk⟩ := spans_of_nearest h
    exact ⟨w, t, ht, trivial, hk⟩
  | many a iha =>
    obtain ⟨vs, t, ht, hvs, hk⟩ := takes_of_repeatMany iha h
    exact ⟨_, t, ht, ⟨vs, rfl, hvs⟩, hk⟩
  | few a iha =>
    obtain ⟨vs, t, ht, hvs, hk⟩ := takes_of_repeatFew iha h
    exact ⟨_, t, ht, ⟨vs, rfl, hvs⟩, hk⟩
  | wordEdge =>
    unfold run at h
    split at h
    · exact ⟨[], s, .nil s, rfl, h⟩
    · cases h
  | start =>
    unfold run at h
    split at h
    · exact ⟨[], s, .nil s, rfl, h⟩
    · cases h

/-- A word takes as many characters as it has, each in either case. -/
theorem takes_word {s : String} (hs : s.toList ≠ []) {w : List Char} (h : (word s).Takes w) :
    List.Forall₂ (fun c d => foldChar d = foldChar c) s.toList w := by
  have hall : ∀ cs : List Char, cs ≠ [] → ∀ w,
      (all (cs.map fun c => .one fun d => foldChar d == foldChar c)).Takes w →
        List.Forall₂ (fun c d => foldChar d = foldChar c) cs w := by
    intro cs
    induction cs with
    | nil => exact fun hne => absurd rfl hne
    | cons c cs ih =>
      intro _ w hw
      cases cs with
      | nil =>
        obtain ⟨d, rfl, hd⟩ := hw
        exact .cons (eq_of_beq hd) .nil
      | cons c' cs =>
        obtain ⟨v, v', rfl, ⟨d, rfl, hd⟩, hv'⟩ := hw
        exact .cons (eq_of_beq hd) (ih (List.cons_ne_nil _ _) v' hv')
  exact hall s.toList hs w h

theorem Takes.all_cons {p : Pattern} {ps : List Pattern} {w : List Char}
    (h : (all (p :: ps)).Takes w) : ∃ v v', w = v ++ v' ∧ p.Takes v ∧ (all ps).Takes v' := by
  cases ps with
  | nil => exact ⟨w, [], (List.append_nil w).symm, h, fun _ hc => absurd hc List.not_mem_nil⟩
  | cons q ps => exact h

theorem Takes.all_append {ps qs : List Pattern} {w : List Char} (h : (all (ps ++ qs)).Takes w) :
    ∃ v v', w = v ++ v' ∧ (all ps).Takes v ∧ (all qs).Takes v' := by
  induction ps generalizing w with
  | nil => exact ⟨[], w, rfl, fun _ hc => absurd hc List.not_mem_nil, h⟩
  | cons p ps ih =>
    obtain ⟨v, v', rfl, hv, hv'⟩ := h.all_cons
    obtain ⟨u, u', rfl, hu, hu'⟩ := ih hv'
    refine ⟨v ++ u, u', (List.append_assoc _ _ _).symm, ?_, hu'⟩
    cases ps with
    | nil =>
      have hnil : u = [] := List.eq_nil_iff_forall_not_mem.2 fun c hc => nomatch hu c hc
      rw [hnil, List.append_nil]
      exact hv
    | cons q ps => exact ⟨v, u, rfl, hv, hu⟩

/-- Each of the patterns takes a part of the text. -/
theorem takes_of_mem_all {p : Pattern} {ps : List Pattern} (hp : p ∈ ps) {w : List Char}
    (h : (all ps).Takes w) : ∃ v, p.Takes v ∧ ∀ c ∈ v, c ∈ w := by
  obtain ⟨front, back, rfl⟩ := List.append_of_mem hp
  obtain ⟨u, u', rfl, -, hu'⟩ := h.all_append
  obtain ⟨v, v', rfl, hv, -⟩ := hu'.all_cons
  exact ⟨v, hv, fun c hc => List.mem_append_right _ (List.mem_append_left _ hc)⟩

theorem last_of_takes_all {p : Pattern} {ps : List Pattern} (hp : ps.getLast? = some p)
    {w : List Char} (h : (all ps).Takes w) : ∃ v v', w = v ++ v' ∧ p.Takes v' := by
  obtain ⟨front, rfl⟩ := List.getLast?_eq_some_iff.1 hp
  obtain ⟨v, v', hw, -, hv'⟩ := h.all_append
  exact ⟨v, v', hw, hv'⟩

/-- A match of a word edge and a word begins like the word. -/
theorem head_of_takes_word {s : String} {c : Char} {cs : List Char} (hs : s.toList = c :: cs)
    {ps : List Pattern} {w : List Char} (h : (all (.wordEdge :: word s :: ps)).Takes w) :
    ∃ d v, w = d :: v ∧ foldChar d = foldChar c := by
  obtain ⟨v, v', rfl, rfl, hv'⟩ := h.all_cons
  obtain ⟨u, u', rfl, hu, -⟩ := hv'.all_cons
  have hword := takes_word (hs ▸ List.cons_ne_nil _ _) hu
  rw [hs] at hword
  cases hword with
  | cons hd _ => exact ⟨_, _, rfl, hd⟩

theorem last_of_takes_word {s : String} {c : Char} {cs : List Char} (hs : s.toList = cs ++ [c])
    {w : List Char} (h : (word s).Takes w) : ∃ v d, w = v ++ [d] ∧ foldChar d = foldChar c := by
  have hne : s.toList ≠ [] := hs ▸ List.append_ne_nil_of_right_ne_nil _ (List.cons_ne_nil _ _)
  have hword := List.forall₂_reverse_iff.2 (takes_word hne h)
  rw [hs, List.reverse_append] at hword
  generalize hr : w.reverse = r at hword
  cases hword with
  | @cons _ d _ r hd _ =>
    refine ⟨r.reverse, d, ?_, hd⟩
    rw [← List.reverse_reverse w, hr, List.reverse_cons]

end Pattern

/-! ## Matches -/

theorem takes_of_one {p : Pattern} {parts : List (List Char)}
    (h : List.Forall₂ Pattern.Takes [p] parts) : p.Takes parts.flatten := by
  cases h with
  | cons hp hnil =>
    cases hnil
    rw [List.flatten_singleton]
    exact hp

theorem takes_of_endings {ps : List Pattern} {s : Cursor} {ends : List Cursor}
    (h : endings? ps s = some ends) :
    ∃ rest, s.rest = (between s.taken s.rest ends).flatten ++ rest ∧
      List.Forall₂ Pattern.Takes ps (between s.taken s.rest ends) := by
  induction ps generalizing s ends with
  | nil =>
    cases h
    exact ⟨s.rest, rfl, .nil⟩
  | cons p ps ih =>
    obtain ⟨w, t, ht, hw, hk⟩ := Pattern.takes_of_run (k := fun s' =>
      (endings? ps s').map (s' :: ·)) h
    obtain ⟨tail, htail, rfl⟩ := Option.map_eq_some_iff.1 hk
    obtain ⟨rest, hr, htakes⟩ := ih htail
    have htake : s.rest.take (t.taken - s.taken) = w := by
      rw [ht.rest, ht.taken, Nat.add_sub_cancel_left, List.take_left]
    unfold between
    rw [htake]
    refine ⟨rest, ?_, .cons hw htakes⟩
    rw [List.flatten_cons, List.append_assoc, ← hr]
    exact ht.rest

/-- **The parts of a match** are texts that the patterns can take. -/
theorem takes_of_matchAt {ps : List Pattern} {s : Cursor} {parts : List (List Char)}
    (h : matchAt? ps s = some parts) : List.Forall₂ Pattern.Takes ps parts := by
  obtain ⟨ends, he, rfl⟩ := Option.map_eq_some_iff.1 h
  exact (takes_of_endings he).choose_spec.2

theorem takes_of_search {ps : List Pattern} {passed passed' : List Char} {before : Option Char}
    {taken : Nat} {cs : List Char} {parts : List (List Char)}
    (h : search? ps passed before taken cs = some (passed', parts)) :
    List.Forall₂ Pattern.Takes ps parts := by
  induction cs generalizing passed before taken with
  | nil =>
    obtain ⟨parts', hp, he⟩ := Option.map_eq_some_iff.1 h
    cases he
    exact takes_of_matchAt hp
  | cons c cs ih =>
    unfold search? at h
    split at h
    · rename_i parts' hp
      cases h
      exact takes_of_matchAt hp
    · exact ih h

/-- **Matches in a text** have parts that the patterns can take. -/
theorem takes_of_mem_segments {ps : List Pattern} {before : Option Char} {cs : List Char}
    {parts : List (List Char)} (h : .found parts ∈ segmentsAfter ps before cs) :
    List.Forall₂ Pattern.Takes ps parts := by
  fun_induction segmentsAfter ps before cs with
  | case1 | case2 => cases List.mem_singleton.1 h
  | case3 before cs passed parts' hs hne ih =>
    rcases List.mem_cons.1 h with h | h
    · cases h
    · rcases List.mem_cons.1 h with h | h
      · cases h
        exact takes_of_search hs
      · exact ih h

end DdlGraph.Text
