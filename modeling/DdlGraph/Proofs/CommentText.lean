import DdlGraph.Proofs.PutAsideText

/-!
# Where comments stand

A comment is told by its first two characters (`commentAt?`): it goes to the end of the line, or to
the next star and slash, and begins no comment where none follows. So whether one begins at a
character is seen from the next one and from whether a star and a slash come later. A text may
change behind a comment, and behind a character that begins none, as long as it brings no such
character to its front and no star and slash into it (`Follows`).

* `matchAt?_commentPattern`: comments are what the pattern finds;
* `passes_of_search`: no match begins in front of the first one;
* `Follows.commentAt?_char`, `Follows.commentAt?_comment`: what begins comments and what does not
  stays so.
-/

namespace DdlGraph.Text

variable {ps : List Pattern}

/-! ## Matches of a text -/

/-- **In front of the first match** nothing begins. -/
theorem passes_of_search {passed passed' : List Char} {before : Option Char} {taken : Nat}
    {cs : List Char} {parts : List (List Char)}
    (h : search? ps passed before taken cs = some (passed', parts)) :
    ∃ xs rest, passed' = xs.reverse ++ passed ∧ cs = xs ++ (parts.flatten ++ rest) ∧
      Passes (Matches ps) before xs (parts.flatten ++ rest) ∧
      matchAt? ps ⟨xs.getLast?.or before, parts.flatten ++ rest, 0⟩ = some parts := by
  induction cs generalizing passed before taken with
  | nil =>
    obtain ⟨parts', hm, he⟩ := Option.map_eq_some_iff.1 h
    cases he
    obtain ⟨rest, hrest⟩ := eq_append_of_matchAt hm
    have hnil : parts.flatten ++ rest = [] := hrest.symm
    rw [matchAt?_taken, ← hnil] at hm
    exact ⟨[], rest, rfl, hrest, trivial, hm⟩
  | cons c cs ih =>
    unfold search? at h
    split at h
    · rename_i parts' hm
      cases h
      obtain ⟨rest, hrest⟩ := eq_append_of_matchAt hm
      have hcons : c :: cs = parts.flatten ++ rest := hrest
      rw [matchAt?_taken, hcons] at hm
      exact ⟨[], rest, rfl, hcons, trivial, hm⟩
    · rename_i hnone
      obtain ⟨xs, rest, rfl, rfl, hpasses, hm⟩ := ih h
      have hhere : ¬Matches ps before (c :: (xs ++ (parts.flatten ++ rest))) := by
        rintro ⟨taken', parts', hm'⟩
        rw [matchAt?_taken] at hm' hnone
        rw [hnone] at hm'
        cases hm'
      have hlast : (c :: xs).getLast?.or before = xs.getLast?.or (some c) := by
        rw [List.getLast?_cons]
        cases xs.getLast? <;> rfl
      refine ⟨c :: xs, rest, ?_, rfl, ⟨hhere, hpasses⟩, hlast ▸ hm⟩
      rw [List.reverse_cons, List.append_assoc]
      rfl

/-- Nothing begins in a text without a match. -/
theorem passes_of_search_eq_none {passed : List Char} {before : Option Char} {taken : Nat}
    {cs : List Char} (h : search? ps passed before taken cs = none) :
    Passes (Matches ps) before cs [] := by
  induction cs generalizing passed before taken with
  | nil => trivial
  | cons c cs ih =>
    unfold search? at h
    split at h
    · cases h
    · rename_i hnone
      refine ⟨?_, ih h⟩
      rintro ⟨taken', parts', hm'⟩
      rw [List.append_nil, matchAt?_taken] at hm'
      rw [matchAt?_taken, hm'] at hnone
      cases hnone

end DdlGraph.Text

namespace DdlGraph.Repair

open DdlGraph.Text

/-- Text in which nothing begins has no matches. -/
theorem matchesOf_segmentsAfter_append {ps : List Pattern} (hps : Solid ps) {before : Option Char}
    {xs ys : List Char} (h : Passes (Matches ps) before xs ys) :
    matchesOf (segmentsAfter ps before (xs ++ ys)) =
      matchesOf (segmentsAfter ps (xs.getLast?.or before) ys) := by
  obtain ⟨g, more, hys, hall⟩ := segmentsAfter_append hps h
  rw [hys, hall]
  rfl

/-! ## Comments -/

/-- A text up to its first star and slash, and with them. -/
def throughClose? : List Char → Option (List Char)
  | [] => none
  | c :: cs =>
    if c = '*' ∧ cs.head? = some '/' then some ['*', '/'] else (throughClose? cs).map (c :: ·)

/-- **The comment that a text begins with.** -/
def commentAt? : List Char → Option (List Char)
  | '-' :: '-' :: cs => some ('-' :: '-' :: cs.takeWhile (· != '\n'))
  | '/' :: '*' :: cs => (throughClose? cs).map fun w => '/' :: '*' :: w
  | _ => none

/-- **The comments of a text**, from left to right. -/
def comments (cs : List Char) : List (List Char) :=
  matchesOf (segments commentPattern cs)

theorem throughClose?_ne_nil {cs v : List Char} (h : throughClose? cs = some v) : v ≠ [] := by
  cases cs with
  | nil => cases h
  | cons c cs =>
    unfold throughClose? at h
    split at h
    · cases h
      exact List.cons_ne_nil _ _
    · obtain ⟨w, -, rfl⟩ := Option.map_eq_some_iff.1 h
      exact List.cons_ne_nil _ _

/-- What follows does not tell where a comment is closed. -/
theorem throughClose?_append {v rest : List Char} (h : throughClose? (v ++ rest) = some v)
    (rest' : List Char) : throughClose? (v ++ rest') = some v := by
  induction v with
  | nil => exact absurd rfl (throughClose?_ne_nil h)
  | cons c v ih =>
    rw [List.cons_append, throughClose?] at h ⊢
    split at h
    · rename_i hclose
      cases h
      rw [if_pos ⟨rfl, rfl⟩]
    · rename_i hopen
      obtain ⟨w, hw, he⟩ := Option.map_eq_some_iff.1 h
      obtain ⟨-, rfl⟩ := List.cons.inj he
      obtain ⟨d, v, rfl⟩ := List.exists_cons_of_ne_nil (throughClose?_ne_nil hw)
      have hstill : ¬(c = '*' ∧ (d :: v ++ rest').head? = some '/') := hopen
      rw [if_neg hstill, ih hw]
      rfl

/-- A comment is closed where a star and a slash stand. -/
theorem throughClose?_eq_none_iff {cs : List Char} :
    throughClose? cs = none ↔ ¬['*', '/'] <:+: cs := by
  induction cs with
  | nil => exact iff_of_true rfl fun h => absurd (List.infix_nil.1 h) (List.cons_ne_nil _ _)
  | cons c cs ih =>
    have hfront : ['*', '/'] <+: c :: cs ↔ c = '*' ∧ cs.head? = some '/' := by
      cases cs with
      | nil => simp [List.cons_prefix_cons]
      | cons d cs => simp [List.cons_prefix_cons, eq_comm]
    rw [throughClose?, List.infix_cons_iff, hfront]
    split
    · rename_i hclose
      exact iff_of_false (Option.some_ne_none _) (not_not_intro (.inl hclose))
    · rename_i hopen
      rw [Option.map_eq_none_iff, ih, not_or]
      exact (and_iff_right hopen).symm

/-- The place behind the next star and slash. -/
theorem nearest_close (before : Option Char) (taken : Nat) (cs : List Char) :
    ∃ before' rest, Pattern.nearest ((Pattern.char '*').run ((Pattern.char '/').run fun s => some [s]))
        before taken cs =
      (throughClose? cs).map fun v => [⟨before', rest, taken + v.length⟩] := by
  induction cs generalizing before taken with
  | nil => exact ⟨none, [], rfl⟩
  | cons c cs ih =>
    obtain ⟨before', rest, hnext⟩ := ih (some c) (taken + 1)
    rw [Pattern.nearest, throughClose?]
    by_cases hclose : c = '*' ∧ cs.head? = some '/'
    · obtain ⟨rfl, hhead⟩ := hclose
      obtain ⟨more, rfl⟩ := List.head?_eq_some_iff.1 hhead
      exact ⟨some '/', more, rfl⟩
    · have hhere : (Pattern.char '*').run ((Pattern.char '/').run fun s => some [s])
          ⟨before, c :: cs, taken⟩ = none := by
        by_cases hc : c = '*'
        · subst hc
          have hslash : cs.head? ≠ some '/' := fun hs => hclose ⟨rfl, hs⟩
          cases cs with
          | nil => rfl
          | cons d cs =>
            have hd : ¬(d == '/') = true := fun hs => hslash (congrArg some (eq_of_beq hs))
            simp only [Pattern.char, Pattern.run, Cursor.step?, beq_self_eq_true, if_true,
              if_neg hd]
        · have hstar : ¬(c == '*') = true := fun hs => hc (eq_of_beq hs)
          simp only [Pattern.char, Pattern.run, Cursor.step?, if_neg hstar]
      refine ⟨before', rest, ?_⟩
      rw [hhere, if_neg hclose, Option.map_map]
      dsimp only
      rw [hnext]
      refine congrArg (Option.map · _) (funext fun v => ?_)
      rw [Function.comp_apply, List.length_cons, Nat.add_right_comm, Nat.add_assoc]

theorem throughClose?_prefix {cs v : List Char} (h : throughClose? cs = some v) : v <+: cs := by
  induction cs generalizing v with
  | nil => cases h
  | cons c cs ih =>
    unfold throughClose? at h
    split at h
    · rename_i hclose
      cases h
      obtain ⟨rfl, hhead⟩ := hclose
      obtain ⟨more, rfl⟩ := List.head?_eq_some_iff.1 hhead
      exact ⟨more, rfl⟩
    · obtain ⟨w, hw, rfl⟩ := Option.map_eq_some_iff.1 h
      exact List.cons_prefix_cons.2 ⟨rfl, ih hw⟩

/-- **Comments are what the pattern finds.** -/
theorem matchAt?_commentPattern (before : Option Char) (cs : List Char) :
    matchAt? commentPattern ⟨before, cs, 0⟩ = (commentAt? cs).map ([·]) := by
  unfold commentAt?
  split
  · rename_i cs
    have hsplit := List.takeWhile_append_dropWhile (p := (· != '\n')) (l := cs)
    have hline : '\n' ∉ cs.takeWhile (· != '\n') := fun hmem =>
      absurd (List.all_eq_true.1 List.all_takeWhile _ hmem) (by decide)
    have hrest : ∀ c ∈ (cs.dropWhile (· != '\n')).head?, c = '\n' := by
      intro c hc
      have hhead := List.head?_dropWhile_not (· != '\n') cs
      rw [hc] at hhead
      simpa using hhead
    have hm := matchAt?_comment hline hrest before
    rw [hsplit] at hm
    exact hm
  · rename_i cs
    obtain ⟨before', rest, hclose⟩ := nearest_close (some '*') 2 cs
    have hends : endings? commentPattern ⟨before, '/' :: '*' :: cs, 0⟩ =
        (throughClose? cs).map fun v => [⟨before', rest, 2 + v.length⟩] := by
      rw [← hclose]
      rfl
    unfold matchAt?
    rw [hends, Option.map_map, Option.map_map]
    cases hv : throughClose? cs with
    | none => rfl
    | some v =>
      obtain ⟨more, rfl⟩ := throughClose?_prefix hv
      have htake : ('/' :: '*' :: (v ++ more)).take (2 + v.length - 0) = '/' :: '*' :: v := by
        rw [Nat.sub_zero, Nat.add_comm 2, List.take_succ_cons, List.take_succ_cons, List.take_left]
      rw [Option.map_some, Option.map_some, Function.comp_apply, Function.comp_apply, between,
        between, htake]
  · rename_i hdash hslash
    have hnone : ¬Matches commentPattern before cs := by
      intro hm
      obtain ⟨l, hl, hlead⟩ := ledBy_comment before cs hm
      rcases List.mem_pair.1 hl with rfl | rfl
      · obtain ⟨more, rfl⟩ := (leads_chars _ _ _).1 hlead
        exact hdash more rfl
      · obtain ⟨more, rfl⟩ := (leads_chars _ _ _).1 hlead
        exact hslash more rfl
    exact matchAt?_eq_none hnone 0

theorem matches_comment {before : Option Char} {cs : List Char} :
    Matches commentPattern before cs ↔ commentAt? cs ≠ none := by
  constructor
  · rintro ⟨taken, parts, hm⟩ hnone
    rw [matchAt?_taken, matchAt?_commentPattern, hnone] at hm
    cases hm
  · intro hsome
    obtain ⟨w, hw⟩ := Option.ne_none_iff_exists'.1 hsome
    exact ⟨0, [w], by rw [matchAt?_commentPattern, hw]; rfl⟩

/-- What stands before a text does not tell where comments begin. -/
theorem passes_comment {before before' : Option Char} {xs rest : List Char}
    (h : Passes (Matches commentPattern) before xs rest) :
    Passes (Matches commentPattern) before' xs rest := by
  cases xs with
  | nil => trivial
  | cons c xs => exact ⟨mt (fun hm => matches_comment.2 (matches_comment.1 hm)) h.1, h.2⟩

/-- **No comment begins at a character**: it is no dash in front of a dash, and no slash in front of
a star behind which the comment is closed. -/
theorem commentAt?_cons_eq_none_iff {c : Char} {cs : List Char} : commentAt? (c :: cs) = none ↔
    ¬(c = '-' ∧ cs.head? = some '-') ∧
      ¬(c = '/' ∧ ∃ more, cs = '*' :: more ∧ ['*', '/'] <:+: more) := by
  unfold commentAt?
  split
  · rename_i more he
    obtain ⟨rfl, rfl⟩ := List.cons.inj he
    exact iff_of_false (Option.some_ne_none _) fun h => h.1 ⟨rfl, rfl⟩
  · rename_i more he
    obtain ⟨rfl, rfl⟩ := List.cons.inj he
    rw [Option.map_eq_none_iff, throughClose?_eq_none_iff]
    constructor
    · refine fun h => ⟨fun hdash => absurd hdash.1 (by decide), ?_⟩
      rintro ⟨-, rest, he, hclose⟩
      obtain ⟨-, rfl⟩ := List.cons.inj he
      exact h hclose
    · exact fun h hclose => h.2 ⟨rfl, more, rfl, hclose⟩
  · rename_i hdash hslash
    refine iff_of_true rfl ⟨?_, ?_⟩
    · rintro ⟨rfl, hhead⟩
      obtain ⟨more, rfl⟩ := List.head?_eq_some_iff.1 hhead
      exact hdash more rfl
    · rintro ⟨rfl, more, rfl, -⟩
      exact hslash more rfl

/-- **A comment** in front of a text: to the end of its line, where the text begins, or closed. -/
theorem commentAt?_append_iff {w rest : List Char} : commentAt? (w ++ rest) = some w ↔
    (∃ v, w = '-' :: '-' :: v ∧ '\n' ∉ v ∧ ∀ c ∈ rest.head?, c = '\n') ∨
      ∃ v, w = '/' :: '*' :: v ∧ throughClose? v = some v := by
  generalize hcs : w ++ rest = cs
  constructor
  · intro h
    unfold commentAt? at h
    split at h
    · rename_i more
      obtain rfl := Option.some.inj h
      refine .inl ⟨_, rfl, ?_, ?_⟩
      · exact fun hmem => absurd (List.all_eq_true.1 List.all_takeWhile _ hmem) (by decide)
      · have hrest : rest = more.dropWhile (· != '\n') := by
          have happ := List.takeWhile_append_dropWhile (p := (· != '\n')) (l := more)
          obtain ⟨-, hmore⟩ := List.cons.inj (List.cons.inj hcs).2
          exact List.append_cancel_left (hmore.trans happ.symm)
        intro c hc
        have hhead := List.head?_dropWhile_not (· != '\n') more
        rw [← hrest, hc] at hhead
        simpa using hhead
    · rename_i more
      obtain ⟨v, hv, rfl⟩ := Option.map_eq_some_iff.1 h
      obtain ⟨-, hmore⟩ := List.cons.inj (List.cons.inj hcs).2
      rw [← hmore] at hv
      have hself := throughClose?_append hv []
      rw [List.append_nil] at hself
      exact .inr ⟨v, rfl, hself⟩
    · cases h
  · rintro (⟨v, rfl, hline, hrest⟩ | ⟨v, rfl, hclose⟩)
    · have hv : ∀ c ∈ v, (c != '\n') = true := fun c hc =>
        bne_iff_ne.2 fun he => hline (he ▸ hc)
      have hstop : rest.takeWhile (· != '\n') = [] := by
        cases rest with
        | nil => rfl
        | cons c rest =>
          refine List.takeWhile_cons_of_neg ?_
          rw [hrest c rfl]
          decide
      rw [← hcs]
      show some ('-' :: '-' :: (v ++ rest).takeWhile (· != '\n')) = _
      rw [List.takeWhile_append_of_pos hv, hstop, List.append_nil]
    · have hself : throughClose? (v ++ []) = some v := by rwa [List.append_nil]
      rw [← hcs]
      show (throughClose? (v ++ rest)).map _ = _
      rw [throughClose?_append hself rest]
      rfl

/-! ## Other text behind -/

/-- **A text in place of another one** that begins and closes no comment which the old one does
not: a dash, a star or a slash in front stood there, and so did a star and a slash. -/
structure Follows (new old : List Char) : Prop where
  head : ∀ c ∈ ['-', '*', '/'], new.head? = some c → old.head? = some c
  close : ['*', '/'] <:+: new → ['*', '/'] <:+: old
  block : ∀ more, new = '*' :: more → ['*', '/'] <:+: more →
    ∃ more', old = '*' :: more' ∧ ['*', '/'] <:+: more'
  line : (∀ c ∈ old.head?, c = '\n') → ∀ c ∈ new.head?, c = '\n'

namespace Follows

variable {new old : List Char}

theorem refl (cs : List Char) : Follows cs cs :=
  ⟨fun _ _ => id, id, fun more he h => ⟨more, he, h⟩, id⟩

theorem cons (c : Char) (h : Follows new old) : Follows (c :: new) (c :: old) where
  head d _ := id
  close hnew := by
    rcases List.infix_cons_iff.1 hnew with hfront | hrest
    · obtain ⟨rfl, hslash⟩ := List.cons_prefix_cons.1 hfront
      obtain ⟨more, hmore⟩ := hslash
      obtain ⟨more', rfl⟩ := List.head?_eq_some_iff.1 (h.head '/' (by decide) (hmore ▸ rfl))
      exact ⟨[], more', rfl⟩
    · exact List.infix_cons (h.close hrest)
  block more he hclose := by
    obtain ⟨rfl, rfl⟩ := List.cons.inj he
    exact ⟨old, rfl, h.close hclose⟩
  line := id

theorem append (xs : List Char) (h : Follows new old) : Follows (xs ++ new) (xs ++ old) := by
  induction xs with
  | nil => exact h
  | cons c xs ih => exact ih.cons c

variable (h : Follows new old)

include h

/-- A character that begins no comment begins none. -/
theorem commentAt?_char {c : Char} (hc : commentAt? (c :: old) = none) :
    commentAt? (c :: new) = none := by
  obtain ⟨hdash, hslash⟩ := commentAt?_cons_eq_none_iff.1 hc
  refine commentAt?_cons_eq_none_iff.2 ⟨fun ⟨he, hhead⟩ => hdash ⟨he, ?_⟩, ?_⟩
  · exact h.head '-' (by decide) hhead
  · rintro ⟨he, more, hnew, hclose⟩
    exact hslash ⟨he, h.block more hnew hclose⟩

/-- A comment is the same comment. -/
theorem commentAt?_comment {w : List Char} (hw : commentAt? (w ++ old) = some w) :
    commentAt? (w ++ new) = some w :=
  commentAt?_append_iff.2 <| (commentAt?_append_iff.1 hw).imp_left
    fun ⟨v, he, hline, hrest⟩ => ⟨v, he, hline, h.line hrest⟩

/-- A text without comments has none. -/
theorem passes {before : Option Char} {xs : List Char}
    (hxs : Passes (Matches commentPattern) before xs old) :
    Passes (Matches commentPattern) before xs new := by
  induction xs generalizing before with
  | nil => trivial
  | cons c xs ih =>
    refine ⟨fun hm => hxs.1 (matches_comment.2 fun hold => matches_comment.1 hm ?_), ih hxs.2⟩
    exact (h.append xs).commentAt?_char hold

end Follows

end DdlGraph.Repair
