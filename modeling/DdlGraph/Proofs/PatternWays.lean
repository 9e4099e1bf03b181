import DdlGraph.Proofs.PatternText

/-!
# Ways through a pattern

A run undoes its choices until what follows accepts the place it got to. So if there is a way
through a pattern over a text (`Pattern.Crosses`) to a place that is accepted, the run gets through,
on that way or on one that it prefers. Ways are put together along the pattern.

* `Crosses.seq`, `crosses_first`, `crosses_word`: ways, constructor by constructor;
* `crosses_few`: a lazy repetition has a way over any number of its turns;
* `Crosses.isSome_start?`: a text that has a way at its start starts with a match.
-/

namespace DdlGraph.Text

namespace Pattern

/-- **There is a way over the text** `w`, behind `before` and in front of `rest`: if the place behind
`w` is accepted, the run gets through. -/
structure Crosses (p : Pattern) (before : Option Char) (w rest : List Char) : Prop where
  run : ∀ {α : Type} (k : Cursor → Option α) (taken : Nat),
    (k ⟨w.getLast?.or before, rest, taken + w.length⟩).isSome = true →
      (p.run k ⟨before, w ++ rest, taken⟩).isSome = true

variable {a b p : Pattern} {before : Option Char} {v w rest : List Char}

theorem getLast?_append_or (before : Option Char) (v w : List Char) :
    (v ++ w).getLast?.or before = w.getLast?.or (v.getLast?.or before) := by
  rw [List.getLast?_append, Option.or_assoc]

theorem crosses_one {f : Char → Bool} {c : Char} (hc : f c = true) :
    (Pattern.one f).Crosses before [c] rest := by
  refine ⟨fun k taken hk => ?_⟩
  have hstep : Cursor.step? f ⟨before, c :: rest, taken⟩ = some ⟨some c, rest, taken + 1⟩ := by
    simp [Cursor.step?, hc]
  rw [List.singleton_append, Pattern.run, hstep]
  exact hk

theorem Crosses.seq (ha : a.Crosses before v (w ++ rest))
    (hb : b.Crosses (v.getLast?.or before) w rest) : (Pattern.seq a b).Crosses before (v ++ w) rest := by
  refine ⟨fun k taken hk => ?_⟩
  rw [getLast?_append_or, List.length_append, ← Nat.add_assoc] at hk
  rw [List.append_assoc]
  exact ha.run (b.run k) taken (hb.run k _ hk)

theorem Crosses.left (h : a.Crosses before w rest) : (Pattern.either a b).Crosses before w rest := by
  refine ⟨fun k taken hk => ?_⟩
  obtain ⟨r, hr⟩ := Option.isSome_iff_exists.1 (h.run k taken hk)
  rw [Pattern.run, hr]
  rfl

theorem Crosses.right (h : b.Crosses before w rest) :
    (Pattern.either a b).Crosses before w rest := by
  refine ⟨fun k taken hk => ?_⟩
  rw [Pattern.run]
  split
  · rfl
  · exact h.run k taken hk

/-- The places that a run can end at, behind those found before. -/
theorem mem_stops {f : Char → Bool} (hw : ∀ c ∈ w, f c = true) (found : List Cursor) (taken : Nat) :
    ⟨w.getLast?.or before, rest, taken + w.length⟩ ∈ stops f found before taken (w ++ rest) := by
  have hfound : ∀ {s : Cursor} {found : List Cursor} (before : Option Char) (taken : Nat)
      (cs : List Char), s ∈ found → s ∈ stops f found before taken cs := by
    intro s found before taken cs hs
    induction cs generalizing found before taken with
    | nil => exact .tail _ hs
    | cons c cs ih =>
      rw [stops]
      split
      · exact ih _ _ (.tail _ hs)
      · exact .tail _ hs
  induction w generalizing found before taken with
  | nil =>
    cases rest with
    | nil => exact .head _
    | cons c rest =>
      rw [List.nil_append, stops]
      split
      · exact hfound _ _ _ (.head _)
      · exact .head _
  | cons c w ih =>
    obtain ⟨hc, hw⟩ := List.forall_mem_cons.1 hw
    have hlast : (c :: w).getLast?.or before = w.getLast?.or (some c) :=
      getLast?_append_or before [c] w
    have htaken : taken + (c :: w).length = taken + 1 + w.length := by
      rw [List.length_cons]
      omega
    rw [hlast, htaken, List.cons_append, stops, if_pos hc]
    exact ih hw _ _

theorem crosses_span {f : Char → Bool} (hw : ∀ c ∈ w, f c = true) :
    (Pattern.span f).Crosses before w rest := by
  refine ⟨fun k taken hk => ?_⟩
  rw [Pattern.run, List.findSome?_isSome_iff]
  exact ⟨_, mem_stops hw [] taken, hk⟩

theorem crosses_run1 {f : Char → Bool} {c : Char} (hc : f c = true) (hw : ∀ d ∈ w, f d = true) :
    (run1 f).Crosses before (c :: w) rest :=
  (crosses_one hc).seq (crosses_span hw)

/-- **A lazy repetition** has a way over any number of its turns, each of which takes something. -/
theorem crosses_few {vs : List (List Char)} (hne : ∀ v ∈ vs, v ≠ [])
    (h : ∀ v ∈ vs, ∀ before rest, a.Crosses before v rest) :
    (Pattern.few a).Crosses before vs.flatten rest := by
  refine ⟨fun k taken hk => ?_⟩
  have hturns : ∀ n, vs.length ≤ n →
      (repeatFew (fun k s => a.run k s) k n ⟨before, vs.flatten ++ rest, taken⟩).isSome = true := by
    induction vs generalizing before taken with
    | nil =>
      intro n _
      cases n with
      | zero => exact hk
      | succ n =>
        obtain ⟨r, hr⟩ := Option.isSome_iff_exists.1 hk
        rw [repeatFew, show k ⟨before, [].flatten ++ rest, taken⟩ = some r from hr]
        rfl
    | cons v vs ih =>
      intro n hn
      obtain ⟨n, rfl⟩ : ∃ m, n = m + 1 := ⟨n - 1, by rw [List.length_cons] at hn; omega⟩
      rw [repeatFew]
      split
      · rfl
      · rw [List.flatten_cons, getLast?_append_or, List.length_append, ← Nat.add_assoc] at hk
        rw [List.flatten_cons, List.append_assoc]
        exact (h v (.head _) before (vs.flatten ++ rest)).run _ taken
          (ih (fun u hu => hne u (.tail _ hu)) (fun u hu => h u (.tail _ hu)) _ hk n
            (Nat.le_of_succ_le_succ hn))
  have hlength : ∀ vs : List (List Char), (∀ v ∈ vs, v ≠ []) → vs.length ≤ vs.flatten.length := by
    intro vs hne
    induction vs with
    | nil => exact Nat.le_refl 0
    | cons v vs ih =>
      have hv := List.length_pos_iff.2 (hne v (.head _))
      have hrest := ih fun u hu => hne u (.tail _ hu)
      rw [List.flatten_cons, List.length_append, List.length_cons]
      omega
  rw [Pattern.run]
  refine hturns _ (Nat.le_trans (hlength vs hne) ?_)
  rw [List.length_append]
  exact Nat.le_add_right _ _

theorem crosses_wordEdge (h : before.any isWord ≠ rest.head?.any isWord) :
    Pattern.wordEdge.Crosses before [] rest := by
  refine ⟨fun k taken hk => ?_⟩
  rw [List.nil_append, Pattern.run, if_pos]
  · exact hk
  · exact bne_iff_ne.2 h

theorem crosses_start : Pattern.start.Crosses none [] rest :=
  ⟨fun _ _ hk => hk⟩

theorem crosses_first {ps : List Pattern} (hp : p ∈ ps) (h : p.Crosses before w rest) :
    (first ps).Crosses before w rest := by
  induction ps with
  | nil => cases hp
  | cons q ps ih =>
    cases ps with
    | nil => exact List.mem_singleton.1 hp ▸ h
    | cons q' ps =>
      rcases List.mem_cons.1 hp with rfl | hp
      · exact h.left
      · exact (ih hp).right

/-- **A word** has a way over its letters, in either case. -/
theorem crosses_word {s : String} (hs : s.toList ≠ [])
    (h : List.Forall₂ (fun c d => foldChar d = foldChar c) s.toList w) :
    (word s).Crosses before w rest := by
  unfold word
  generalize s.toList = cs at hs h
  induction h generalizing before with
  | nil => exact absurd rfl hs
  | @cons c d cs w hd hcs ih =>
    have hone : ∀ rest, (Pattern.one fun d => foldChar d == foldChar c).Crosses before [d] rest :=
      fun rest => crosses_one (beq_iff_eq.2 hd)
    cases hcs with
    | nil => exact hone rest
    | cons hd' hcs => exact (hone _).seq (ih (List.cons_ne_nil _ _))

/-- **A text with a way at its start** starts with a match. -/
theorem Crosses.isSome_start? (h : p.Crosses none w rest) : (start? [p] (w ++ rest)).isSome = true := by
  unfold start? matchAt?
  rw [Option.isSome_map]
  exact h.run _ 0 rfl

end Pattern

end DdlGraph.Text
