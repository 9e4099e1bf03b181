import DdlGraph.Proofs.ComposedText

/-!
# Comments and statements that are put aside

What is found in a text whose quiet parts are known. Between quiet gaps the comments are found as
they stand (`segmentsAfter_noted`). Statements on lines of their own, of which none holds a
semicolon or has another match in it (`Separate`), are found one by one or not at all: they can be
put aside without a trace (`quiet_markFrom`), and those that add a constraint are found once each
(`addedConstraints_sublist`).
-/

namespace DdlGraph.Repair

open DdlGraph.Text DdlGraph.Sql DdlGraph.Ddl

/-! ## A match behind quiet text -/

/-- **The first match**, behind quiet text, and what is found behind it. -/
theorem segmentsAfter_found {ps : List Pattern} (hps : Solid ps) {before : Option Char}
    {xs w ys : List Char} {parts : List (List Char)} (hw : parts.flatten = w)
    (hx : Passes (Matches ps) before xs (w ++ ys))
    (hm : matchAt? ps ⟨xs.getLast?.or before, w ++ ys, 0⟩ = some parts) :
    segmentsAfter ps before (xs ++ (w ++ ys)) =
      .gap xs :: .found parts :: segmentsAfter ps w.getLast? ys := by
  have hsearch : search? ps [] before 0 (xs ++ (w ++ ys)) = some (xs.reverse, parts) := by
    rw [search?_append_of_passes [] 0 hx, search?_shift, search?_of_matchAt hm]
    exact congrArg (fun passed => some (passed, parts)) (List.append_nil _)
  have hdrop : (xs ++ (w ++ ys)).drop (xs.reverse.length + w.length) = ys := by
    rw [List.length_reverse, ← List.append_assoc, ← List.length_append, List.drop_left]
  rw [segmentsAfter_of_search hps hsearch, hw, hdrop, List.reverse_reverse]

/-- A match at the start. -/
theorem segmentsAfter_front {ps : List Pattern} (hps : Solid ps) {before : Option Char}
    {w ys : List Char} {parts : List (List Char)} (hw : parts.flatten = w)
    (hm : matchAt? ps ⟨before, w ++ ys, 0⟩ = some parts) :
    segmentsAfter ps before (w ++ ys) =
      .gap [] :: .found parts :: segmentsAfter ps w.getLast? ys := by
  have hpasses : Passes (Matches ps) before [] (w ++ ys) := trivial
  exact segmentsAfter_found hps hw hpasses hm

/-! ## Comments -/

theorem stops_eq_cons {p : Char → Bool} {w rest : List Char} (hw : ∀ c ∈ w, p c = true)
    (hr : ∀ c ∈ rest.head?, p c = false) (found : List Cursor) (before : Option Char)
    (taken : Nat) :
    ∃ before' more, stops p found before taken (w ++ rest) =
      ⟨before', rest, taken + w.length⟩ :: more := by
  induction w generalizing found before taken with
  | nil =>
    cases rest with
    | nil => exact ⟨_, _, rfl⟩
    | cons c rest =>
      refine ⟨before, found, ?_⟩
      rw [List.nil_append, stops, if_neg (by rw [hr c rfl]; exact Bool.false_ne_true)]
      rfl
  | cons d w ih =>
    obtain ⟨before', more, h⟩ := ih (fun c hc => hw c (.tail _ hc))
      (⟨before, d :: (w ++ rest), taken⟩ :: found) (some d) (taken + 1)
    refine ⟨before', more, ?_⟩
    rw [List.cons_append, stops, if_pos (hw d (.head _)), h, List.length_cons, Nat.add_right_comm,
      Nat.add_assoc]

/-- **A comment** goes to the end of its line. -/
theorem matchAt?_comment {w rest : List Char} (hw : '\n' ∉ w) (hr : ∀ c ∈ rest.head?, c = '\n')
    (before : Option Char) :
    matchAt? commentPattern ⟨before, '-' :: '-' :: (w ++ rest), 0⟩ = some ['-' :: '-' :: w] := by
  have hline : ∀ c ∈ w, (c != '\n') = true := fun c hc => bne_iff_ne.2 fun he => hw (he ▸ hc)
  obtain ⟨before', more, hstops⟩ := stops_eq_cons (p := (· != '\n')) hline
    (fun c hc => by rw [hr c hc]; decide) [] (some '-') 2
  have hends : endings? commentPattern ⟨before, '-' :: '-' :: (w ++ rest), 0⟩ =
      some [⟨before', rest, 2 + w.length⟩] := by
    simp only [endings?, commentPattern, Pattern.run, Pattern.all, Pattern.char, Cursor.step?,
      beq_self_eq_true, if_true, Nat.zero_add, Nat.reduceAdd, hstops, List.findSome?_cons,
      Option.map_some]
  have htake : ('-' :: '-' :: (w ++ rest)).take (2 + w.length - 0) = '-' :: '-' :: w := by
    rw [Nat.sub_zero, Nat.add_comm 2, List.take_succ_cons, List.take_succ_cons, List.take_left]
  unfold matchAt?
  rw [hends, Option.map_some, between, between, htake]

theorem solid_comment : Solid commentPattern := by
  refine solid_of_takes fun parts h he => ?_
  rcases takes_of_one h with h | h <;>
  · obtain ⟨v, v', hv, ⟨c, rfl, -⟩, -⟩ := h.all_cons
    rw [he] at hv
    cases hv

/-- Gaps with a comment behind each of them, and one more gap. -/
def noted (notes : List (List Char × List Char)) (last : List Char) : List Char :=
  notes.flatMap (fun n => n.1 ++ '-' :: '-' :: n.2) ++ last

/-- **Comments between quiet gaps**: each goes to the end of its line, where the next gap begins. -/
structure Noted (notes : List (List Char × List Char)) (last : List Char) : Prop where
  gaps : ∀ n ∈ notes, Quiet (Matches commentPattern) n.1
  lines : ∀ n ∈ notes, '\n' ∉ n.2
  ends : ∀ n ∈ notes.tail, n.1.head? = some '\n'
  ends_last : last.head? = some '\n'
  quiet : Quiet (Matches commentPattern) last

theorem Noted.tail {n : List Char × List Char} {notes : List (List Char × List Char)}
    {last : List Char} (h : Noted (n :: notes) last) : Noted notes last where
  gaps m hm := h.gaps m (.tail _ hm)
  lines m hm := h.lines m (.tail _ hm)
  ends m hm := h.ends m (List.mem_of_mem_tail hm)
  ends_last := h.ends_last
  quiet := h.quiet

/-- **Comments are found**, and nothing else. -/
theorem segmentsAfter_noted {notes : List (List Char × List Char)} {last : List Char}
    (h : Noted notes last) (before : Option Char) :
    segmentsAfter commentPattern before (noted notes last) =
      notes.flatMap (fun n => [.gap n.1, .found ['-' :: '-' :: n.2]]) ++ [.gap last] := by
  induction notes generalizing before with
  | nil => exact segmentsAfter_of_passes solid_comment (h.quiet before [])
  | cons n notes ih =>
    have hhead : ∀ c ∈ (noted notes last).head?, c = '\n' := by
      intro c hc
      cases notes with
      | nil =>
        have hlast : last.head? = some c := hc
        exact Option.some.inj (hlast.symm.trans h.ends_last)
      | cons m notes =>
        obtain ⟨more, hm⟩ := List.head?_eq_some_iff.1 (h.ends m (.head _))
        rw [noted, List.flatMap_cons, hm] at hc
        exact (Option.some.inj hc).symm
    have hnoted : noted (n :: notes) last = n.1 ++ ('-' :: '-' :: n.2 ++ noted notes last) := by
      simp only [noted, List.flatMap_cons, List.append_assoc, List.cons_append]
    rw [hnoted, segmentsAfter_found solid_comment (List.flatten_singleton)
      (h.gaps n (.head _) before _)
      (matchAt?_comment (h.lines n (.head _)) hhead (n.1.getLast?.or before)), ih h.tail]
    rfl

/-! ## Statements -/

/-- Statements on lines of their own. -/
def statementLines (statements : List (List Char)) : List Char :=
  statements.flatMap (· ++ [';', '\n'])

theorem statementLines_cons (statement : List Char) (statements : List (List Char)) :
    statementLines (statement :: statements) =
      statement ++ ';' :: '\n' :: statementLines statements := by
  simp only [statementLines, List.flatMap_cons, List.append_assoc, List.cons_append,
    List.nil_append]

/-- **A semicolon ends a statement**: what follows it is the rest of its line, and more
statements. -/
theorem exists_rest_of_semicolon {statements : List (List Char)}
    (h : ∀ s ∈ statements, ';' ∉ s) {w after : List Char}
    (he : statementLines statements = w ++ ';' :: after) :
    ∃ rest, rest.length < statements.length ∧ rest <:+ statements ∧
      after = '\n' :: statementLines rest := by
  induction statements generalizing w with
  | nil => exact absurd he (List.append_ne_nil_of_right_ne_nil _ (List.cons_ne_nil _ _)).symm
  | cons s statements ih =>
    obtain ⟨hs, hrest⟩ := List.forall_mem_cons.1 h
    have hhere : ∀ {after : List Char}, ';' :: '\n' :: statementLines statements = ';' :: after →
        ∃ rest, rest.length < (s :: statements).length ∧ rest <:+ s :: statements ∧
          after = '\n' :: statementLines rest := fun he =>
      ⟨statements, Nat.lt_succ_self _, List.suffix_cons s statements, (List.cons.inj he).2.symm⟩
    rw [statementLines_cons] at he
    rcases List.append_eq_append_iff.1 he with ⟨u, hw, hu⟩ | ⟨u, hw, hu⟩
    · cases u with
      | nil => exact hhere hu
      | cons c u =>
        obtain ⟨rfl, hline⟩ := List.cons.inj hu
        cases u with
        | nil => exact absurd (List.cons.inj hline).1 (by decide)
        | cons d u =>
          obtain ⟨rest, hlen, hsuffix, hafter⟩ := ih hrest (List.cons.inj hline).2
          have hmore := hsuffix.trans (List.suffix_cons s statements)
          exact ⟨rest, Nat.lt_succ_of_lt hlen, hmore, hafter⟩
    · cases u with
      | nil => exact hhere hu.symm
      | cons c u =>
        obtain ⟨rfl, -⟩ := List.cons.inj hu
        exact absurd (hw ▸ List.mem_append_right _ (.head _)) hs

/-- **Separate statements**: a match of the patterns begins where one of them does, or nowhere, and
none holds a semicolon. -/
structure Separate (ps : List Pattern) (statements : List (List Char)) : Prop where
  unended : ∀ s ∈ statements, ';' ∉ s
  quiet : ∀ s ∈ statements, ∃ c cs, s = c :: cs ∧ Quiet (Matches ps) (cs ++ [';', '\n'])
  line : Quiet (Matches ps) ['\n']

section Separate

variable {ps : List Pattern} {statements rest : List (List Char)}

theorem Separate.suffix (h : Separate ps statements) (hr : rest <:+ statements) :
    Separate ps rest where
  unended s hs := h.unended s (hr.mem hs)
  quiet s hs := h.quiet s (hr.mem hs)
  line := h.line

variable {s : List Char} (hps : Solid ps) (h : Separate ps (s :: statements)) (before : Option Char)

include hps h

/-- A statement that is no match is a part of a gap. -/
theorem segmentsAfter_unmatched
    (hn : matchAt? ps ⟨before, statementLines (s :: statements), 0⟩ = none) :
    ∃ before' g more, segmentsAfter ps before' (statementLines statements) = .gap g :: more ∧
      segmentsAfter ps before (statementLines (s :: statements)) =
        .gap (s ++ [';', '\n'] ++ g) :: more := by
  obtain ⟨c, cs, rfl, hquiet⟩ := h.quiet s (.head _)
  have hlines : statementLines ((c :: cs) :: statements) =
      c :: (cs ++ [';', '\n']) ++ statementLines statements := by
    rw [statementLines_cons]
    simp only [List.cons_append, List.append_assoc, List.nil_append]
  have hpasses : Passes (Matches ps) before (c :: (cs ++ [';', '\n']))
      (statementLines statements) := by
    refine ⟨fun ⟨taken, parts, hm⟩ => ?_, hquiet _ _⟩
    rw [matchAt?_taken, ← hlines, hn] at hm
    cases hm
  obtain ⟨g, more, hg, happ⟩ := segmentsAfter_append hps hpasses
  exact ⟨_, g, more, hg, hlines ▸ happ⟩

/-- A statement that is a match, and the rest of its line. -/
theorem segmentsAfter_matched {parts : List (List Char)} {ss : List (List Char)}
    (hm : matchAt? ps ⟨before, statementLines (s :: statements), 0⟩ = some parts)
    (he : statementLines (s :: statements) = parts.flatten ++ '\n' :: statementLines ss) :
    ∃ before' g more, segmentsAfter ps before' (statementLines ss) = .gap g :: more ∧
      segmentsAfter ps before (statementLines (s :: statements)) =
        .gap [] :: .found parts :: .gap ('\n' :: g) :: more := by
  rw [he] at hm ⊢
  obtain ⟨g, more, hg, happ⟩ := segmentsAfter_append hps
    (h.line parts.flatten.getLast? (statementLines ss))
  refine ⟨_, g, more, hg, ?_⟩
  rw [segmentsAfter_front hps rfl hm]
  exact congrArg (fun segments => .gap [] :: .found parts :: segments) happ

end Separate

/-- **Marks for statements**: what is left is quiet if the statements are. -/
theorem quiet_markFrom {ps qs : List Pattern} (hps : Solid ps)
    (hend : ∀ parts, List.Forall₂ Pattern.Takes ps parts → ∃ v, parts.flatten = v ++ [';'])
    (hmark : ∀ n, Quiet (Matches qs) (mark n)) (hline : Quiet (Matches qs) ['\n'])
    {statements : List (List Char)} (h : Separate ps statements)
    (hquiet : ∀ s ∈ statements, Quiet (Matches qs) (s ++ [';', '\n'])) (n : Nat)
    (before : Option Char) :
    Quiet (Matches qs) (markFrom n (segmentsAfter ps before (statementLines statements))) := by
  -- a match may go on to the semicolon of a later statement, so the induction is on how many are
  -- left
  induction hlen : statements.length using Nat.strongRecOn generalizing statements n before with
  | ind length ih =>
    cases statements with
    | nil =>
      have hnone : segmentsAfter ps before (statementLines []) = [.gap []] :=
        segmentsAfter_of_passes hps trivial
      rw [hnone]
      exact .nil
    | cons s statements =>
      have hlt : statements.length < length := hlen ▸ Nat.lt_succ_self _
      cases hm : matchAt? ps ⟨before, statementLines (s :: statements), 0⟩ with
      | none =>
        obtain ⟨before', g, more, hg, happ⟩ := segmentsAfter_unmatched hps h before hm
        have hrest := ih _ hlt (h.suffix (List.suffix_cons s statements))
          (fun t ht => hquiet t (.tail _ ht)) n before' rfl
        rw [hg] at hrest
        rw [happ, markFrom, List.append_assoc]
        exact (hquiet s (.head _)).append hrest
      | some parts =>
        obtain ⟨after, hafter⟩ := eq_append_of_matchAt hm
        obtain ⟨v, hv⟩ := hend parts (takes_of_matchAt hm)
        have hlines : statementLines (s :: statements) = v ++ ';' :: after := by
          rw [show statementLines (s :: statements) = _ from hafter, hv, List.append_assoc]
          rfl
        obtain ⟨ss, hshort, hsuffix, rfl⟩ := exists_rest_of_semicolon h.unended hlines
        obtain ⟨before', g, more, hg, happ⟩ := segmentsAfter_matched hps h before hm hafter
        have hrest := ih _ (hlen ▸ hshort) (h.suffix hsuffix)
          (fun t ht => hquiet t (hsuffix.mem ht)) (n + 1) before' rfl
        rw [hg] at hrest
        rw [happ, markFrom, markFrom, markFrom, List.nil_append]
        exact (hmark n).append (hline.append hrest)

/-! ## Statements that stand twice -/

theorem not_mem_of_takes_word {w : String} (hw : w.toList ≠ []) {x : Char}
    (hx : (w.toList.all fun c => foldChar x != foldChar c) = true) {u : List Char}
    (h : (Pattern.word w).Takes u) : x ∉ u := by
  have hword := Pattern.takes_word hw h
  clear h hw
  generalize w.toList = cs at hword hx
  induction hword with
  | nil => exact List.not_mem_nil
  | cons hd _ ih =>
    rw [List.all_cons, Bool.and_eq_true, bne_iff_ne] at hx
    exact List.not_mem_cons_of_ne_of_not_mem (fun he => hx.1 (he ▸ hd)) (ih hx.2)

/-- A statement that alters a table begins with `ALTER`, and goes up to its first semicolon, with the
end of its line. -/
theorem word_of_takes_alter {parts : List (List Char)}
    (h : List.Forall₂ Pattern.Takes alterPattern parts) :
    ∃ alter e v blanks end_, parts.flatten = alter ++ e :: v ++ ';' :: (blanks ++ end_) ∧
      (Pattern.word "ALTER").Takes alter ∧ isBlank e = true ∧ ';' ∉ alter ++ e :: v ∧
      (∀ c ∈ blanks, isInlineBlank c = true) ∧ (end_ = ['\n'] ∨ end_ = []) := by
  obtain ⟨_, w1, hw, rfl, h1⟩ := (takes_of_one h).all_cons
  obtain ⟨alter, w2, rfl, halter, h2⟩ := h1.all_cons
  obtain ⟨_, w3, rfl, ⟨_, gap, rfl, ⟨b, rfl, hb⟩, hgap⟩, h3⟩ := h2.all_cons
  obtain ⟨table, w4, rfl, htable, h4⟩ := h3.all_cons
  obtain ⟨_, w5, rfl, rfl, h5⟩ := h4.all_cons
  obtain ⟨rest, w6, rfl, hrest, h6⟩ := h5.all_cons
  obtain ⟨_, w7, rfl, ⟨e, rfl, he⟩, h7⟩ := h6.all_cons
  obtain ⟨blanks, w8, rfl, hblanks, hend⟩ := h7.all_cons
  refine ⟨alter, b, gap ++ (table ++ rest), blanks, w8, ?_, halter, hb, ?_, hblanks, ?_⟩
  · rw [hw, eq_of_beq he]
    simp only [List.append_assoc, List.cons_append, List.nil_append]
  · have hblank : ∀ c ∈ b :: gap, isBlank c = true := List.forall_mem_cons.2 ⟨hb, hgap⟩
    rw [← List.cons_append]
    simp only [List.mem_append, not_or]
    exact ⟨not_mem_of_takes_word (by decide) (by decide) halter,
      fun hm => absurd (hblank _ hm) (by decide),
      not_mem_of_takes_word (by decide) (by decide) htable,
      fun hm => absurd (hrest _ hm) (by decide)⟩
  · rcases hend with ⟨c, rfl, hc⟩ | rfl
    · exact .inl (by rw [eq_of_beq hc])
    · exact .inr rfl

theorem exists_of_takes_alter {parts : List (List Char)}
    (h : List.Forall₂ Pattern.Takes alterPattern parts) :
    ∃ v blanks end_, parts.flatten = v ++ ';' :: (blanks ++ end_) ∧ ';' ∉ v ∧
      (∀ c ∈ blanks, isInlineBlank c = true) ∧ (end_ = ['\n'] ∨ end_ = []) := by
  obtain ⟨alter, e, v, blanks, end_, hflat, -, -, hv, hblanks, hend⟩ := word_of_takes_alter h
  exact ⟨alter ++ e :: v, blanks, end_, hflat, hv, hblanks, hend⟩

theorem solid_alter : Solid alterPattern :=
  solid_of_takes fun _ h he => List.not_mem_nil (he ▸ semicolon_of_alter h)

theorem trimEnd_statement (s : List Char) {end_ : List Char} (hend : end_ = ['\n'] ∨ end_ = []) :
    trimEnd (s ++ ';' :: ([] ++ end_)) = s ++ [';'] := by
  have hline : isBlank '\n' = true := by decide
  have hmark : isBlank ';' = false := by decide
  rcases hend with rfl | rfl <;> simp [trimEnd, trimEndWhile, hline, hmark]

/-- **Each statement is found once**, at most. -/
theorem addedConstraints_sublist {statements : List (List Char)}
    (h : Separate alterPattern statements) (before : Option Char) :
    (addedConstraints (segmentsAfter alterPattern before (statementLines statements))).Sublist
      (statements.map (· ++ [';'])) := by
  induction statements generalizing before with
  | nil =>
    have hnone : segmentsAfter alterPattern before (statementLines []) = [.gap []] :=
      segmentsAfter_of_passes solid_alter trivial
    rw [hnone]
    exact .slnil
  | cons s statements ih =>
    have hrest := h.suffix (List.suffix_cons s statements)
    cases hm : matchAt? alterPattern ⟨before, statementLines (s :: statements), 0⟩ with
    | none =>
      obtain ⟨before', g, more, hg, happ⟩ := segmentsAfter_unmatched solid_alter h before hm
      have hsub := ih hrest before'
      rw [hg] at hsub
      rw [happ]
      exact hsub.cons _
    | some parts =>
      obtain ⟨after, hafter⟩ := eq_append_of_matchAt hm
      have hlines : statementLines (s :: statements) = parts.flatten ++ after := hafter
      obtain ⟨v, blanks, end_, hparts, hv, hblanks, hend⟩ :=
        exists_of_takes_alter (takes_of_matchAt hm)
      have hsame := hlines
      rw [statementLines_cons, hparts, List.append_assoc, List.cons_append, List.append_assoc]
        at hsame
      obtain ⟨rfl, hline⟩ := append_cons_inj (h.unended s (.head _)) hv hsame
      obtain rfl : blanks = [] := by
        cases blanks with
        | nil => rfl
        | cons b blanks =>
          obtain ⟨rfl, -⟩ := List.cons.inj hline
          exact absurd (hblanks _ (.head _)) (by decide)
      have htrim : trimEnd parts.flatten = s ++ [';'] := by
        rw [hparts]
        exact trimEnd_statement s hend
      have hsub : ∃ before', addedConstraints (segmentsAfter alterPattern before
          (statementLines (s :: statements))) = addedConstraints
            (.found parts :: segmentsAfter alterPattern before' (statementLines statements)) := by
        rw [List.nil_append] at hline
        rcases hend with rfl | rfl
        · obtain rfl := (List.cons.inj hline).2
          refine ⟨parts.flatten.getLast?, ?_⟩
          rw [hlines, segmentsAfter_front solid_alter rfl (hlines ▸ hm)]
          rfl
        · obtain rfl : '\n' :: statementLines statements = after := hline
          obtain ⟨before', g, more, hg, happ⟩ :=
            segmentsAfter_matched solid_alter h before hm hlines
          exact ⟨before', by rw [happ, hg]; rfl⟩
      obtain ⟨before', hconstraints⟩ := hsub
      rw [hconstraints, addedConstraints_found, htrim, List.map_cons]
      split
      · exact (ih hrest before').cons_cons _
      · exact (ih hrest before').cons _

end DdlGraph.Repair
