import DdlGraph.Proofs.CommentText
import DdlGraph.Proofs.KeptLetters

/-!
# Comments of a repaired text

Comments are put aside before a text is repaired, so its repairs go on between them. A repaired
text with everything put back has the comments of the text, in their order: no repair begins a
comment, closes one that was open, or writes behind one on its line.

* `Stands`: the comments that a text with marks has once everything is put back;
* `stands_putAside`: those of a text that was put aside are its own;
* `Stands.repairs`: one repair leaves them as they are;
* `comments_normalize_iff`: comments come back and no mark is left, unless a comment stands inside
  a statement that adds a foreign key.
-/

namespace DdlGraph.Repair

open DdlGraph.Text DdlGraph.Sql

/-! ## Comments of a text with marks -/

/-- **The comments of a text with marks**, once everything is put back: a comment begins at each
mark that stands for one, and nowhere else. -/
inductive Stands (pieces : List (List Char)) : List Char → List (List Char) → Prop
  | nil : Stands pieces [] []
  | char {c : Char} {t : List Char} {ws : List (List Char)} (hc : c ≠ '\x00')
      (hnone : commentAt? (c :: restore pieces t) = none) (h : Stands pieces t ws) :
      Stands pieces (c :: t) ws
  | comment (n : Nat) {t : List Char} {ws : List (List Char)}
      (hw : commentAt? (pieceAt pieces n ++ restore pieces t) = some (pieceAt pieces n))
      (h : Stands pieces t ws) : Stands pieces (mark n ++ t) (pieceAt pieces n :: ws)
  | statement (n : Nat) {t : List Char} {ws : List (List Char)}
      (hnone : Passes (Matches commentPattern) none (pieceAt pieces n) (restore pieces t))
      (h : Stands pieces t ws) : Stands pieces (mark n ++ t) ws

variable {pieces : List (List Char)} {t t' x z : List Char} {ws : List (List Char)}

theorem Stands.wholeMarks (h : Stands pieces t ws) : WholeMarks t := by
  induction h with
  | nil => exact .nil
  | char hc _ _ ih => exact .char hc ih
  | comment n _ _ ih | statement n _ _ ih => exact .mark n ih

/-- **Comments are found** where they stand. -/
theorem Stands.matchesOf_segmentsAfter (h : Stands pieces t ws) (before : Option Char) :
    matchesOf (segmentsAfter commentPattern before (restore pieces t)) = ws := by
  induction h generalizing before with
  | nil =>
    rw [restore_of_noNul List.not_mem_nil]
    have hnothing : Passes (Matches commentPattern) before [] [] := trivial
    rw [segmentsAfter_of_passes solid_comment hnothing]
    rfl
  | @char c t ws hc hnone h ih =>
    have hone : Passes (Matches commentPattern) before [c] (restore pieces t) :=
      ⟨fun hm => matches_comment.1 hm hnone, trivial⟩
    rw [restore_cons hc h.wholeMarks]
    exact (matchesOf_segmentsAfter_append solid_comment hone).trans (ih _)
  | @comment n t ws hw h ih =>
    have hm : matchAt? commentPattern ⟨before, pieceAt pieces n ++ restore pieces t, 0⟩ =
        some [pieceAt pieces n] := by
      rw [matchAt?_commentPattern, hw]
      rfl
    rw [restore_mark n h.wholeMarks, segmentsAfter_front solid_comment (List.flatten_singleton) hm]
    have hrest := ih (pieceAt pieces n).getLast?
    show [pieceAt pieces n].flatten :: matchesOf _ = _
    rw [hrest, List.flatten_singleton]
  | @statement n t ws hnone h ih =>
    rw [restore_mark n h.wholeMarks,
      matchesOf_segmentsAfter_append solid_comment (passes_comment hnone)]
    exact ih _

/-- A mark is read off the text that it begins. -/
theorem mark_inj {n m : Nat} {a b : List Char} (h : mark n ++ a = mark m ++ b) :
    n = m ∧ a = b := by
  have hcut := congrArg (segmentsAfter markPattern none) h
  have hn := segmentsAfter_mark List.not_mem_nil n a none
  have hm := segmentsAfter_mark List.not_mem_nil m b none
  rw [List.nil_append] at hn hm
  rw [hn, hm] at hcut
  obtain ⟨hfound, -⟩ := List.cons.inj (List.cons.inj hcut).2
  have hmark : mark n = mark m := (List.cons.inj (Segment.found.inj hfound)).1
  have hnumber := congrArg markNumber? hmark
  rw [markNumber_mark, markNumber_mark] at hnumber
  exact ⟨Option.some.inj hnumber, List.append_cancel_left (hmark ▸ h)⟩

theorem Stands.of_cons {c : Char} (hc : c ≠ '\x00') (h : Stands pieces (c :: t) ws) :
    commentAt? (c :: restore pieces t) = none ∧ Stands pieces t ws := by
  generalize he : c :: t = text at h
  cases h with
  | nil => cases he
  | char _ hnone h =>
    obtain ⟨rfl, rfl⟩ := List.cons.inj he
    exact ⟨hnone, h⟩
  | comment | statement => exact absurd (List.cons.inj he).1 hc

theorem Stands.of_mark {n : Nat} (h : Stands pieces (mark n ++ t) ws) :
    (∃ ws', ws = pieceAt pieces n :: ws' ∧
      commentAt? (pieceAt pieces n ++ restore pieces t) = some (pieceAt pieces n) ∧
      Stands pieces t ws') ∨
    (Passes (Matches commentPattern) none (pieceAt pieces n) (restore pieces t) ∧
      Stands pieces t ws) := by
  generalize he : mark n ++ t = text at h
  cases h with
  | nil => cases he
  | char hc => exact absurd (List.cons.inj he).1.symm hc
  | comment m hw h =>
    obtain ⟨rfl, rfl⟩ := mark_inj he
    exact .inl ⟨_, rfl, hw, h⟩
  | statement m hnone h =>
    obtain ⟨rfl, rfl⟩ := mark_inj he
    exact .inr ⟨hnone, h⟩

/-- Text without marks in front. -/
theorem stands_append_iff {w : List Char} (hw : '\x00' ∉ w) (ht : WholeMarks t) :
    Stands pieces (w ++ t) ws ↔
      Passes (Matches commentPattern) none w (restore pieces t) ∧ Stands pieces t ws := by
  induction w with
  | nil => exact (and_iff_right trivial).symm
  | cons c w ih =>
    have hc : c ≠ '\x00' := (List.ne_of_not_mem_cons hw).symm
    have hfree := List.not_mem_of_not_mem_cons hw
    have hrestore : restore pieces (w ++ t) = w ++ restore pieces t := by
      rw [restore_append (wholeMarks_of_noNul hfree) ht, restore_of_noNul hfree]
    have hhere : ¬Matches commentPattern none (c :: w ++ restore pieces t) ↔
        commentAt? (c :: restore pieces (w ++ t)) = none := by
      rw [matches_comment, not_ne_iff, hrestore, List.cons_append]
    rw [Passes, hhere, and_assoc]
    constructor
    · intro h
      obtain ⟨hnone, h⟩ := h.of_cons hc
      obtain ⟨hpasses, h⟩ := (ih hfree).1 h
      exact ⟨hnone, passes_comment hpasses, h⟩
    · rintro ⟨hnone, hpasses, h⟩
      exact .char hc hnone ((ih hfree).2 ⟨passes_comment hpasses, h⟩)

/-- **Behind a text** something else may stand, if it begins and closes no new comment. -/
theorem Stands.behind (hx : WholeMarks x) (ht : WholeMarks t) (ht' : WholeMarks t')
    (hfollows : Follows (restore pieces t') (restore pieces t))
    (hstands : ∀ ws, Stands pieces t ws → Stands pieces t' ws) (h : Stands pieces (x ++ t) ws) :
    Stands pieces (x ++ t') ws := by
  induction hx generalizing ws with
  | nil => exact hstands ws h
  | @char c x hc hx ih =>
    obtain ⟨hnone, h⟩ := h.of_cons hc
    have hmore := hfollows.append (restore pieces x)
    rw [← restore_append hx ht, ← restore_append hx ht'] at hmore
    exact .char hc (hmore.commentAt?_char hnone) (ih h)
  | @mark n x hx ih =>
    have hmore := hfollows.append (restore pieces x)
    rw [← restore_append hx ht, ← restore_append hx ht'] at hmore
    rw [List.append_assoc] at h ⊢
    rcases h.of_mark with ⟨ws', rfl, hw, h⟩ | ⟨hnone, h⟩
    · exact .comment n (hmore.commentAt?_comment hw) (ih h)
    · exact .statement n (hmore.passes hnone) (ih h)

/-! ## Repairs -/

/-- A comma behind a character. -/
theorem follows_comma (c : Char) (cs : List Char) : Follows (c :: ',' :: cs) (c :: cs) where
  head d _ := id
  close hnew := by
    have hcut : ['*', '/'] <:+: [c] ++ ',' :: cs := hnew
    rcases isInfix_of_isInfix_cut (by decide) hcut with hfront | hrest
    · exact hfront.trans ⟨[], cs, rfl⟩
    · exact List.infix_cons hrest
  block more he hclose := by
    obtain ⟨rfl, rfl⟩ := List.cons.inj he
    have hcut : ['*', '/'] <:+: [] ++ ',' :: cs := hclose
    rcases isInfix_of_isInfix_cut (by decide) hcut with hnil | hrest
    · exact absurd (List.infix_nil.1 hnil) (List.cons_ne_nil _ _)
    · exact ⟨cs, rfl, hrest⟩
  line := id

theorem passes_comma {c : Char} (cs : List Char) :
    Passes (Matches commentPattern) none [c, ','] cs := by
  have hcomma : commentAt? (',' :: cs) = none :=
    commentAt?_cons_eq_none_iff.2 ⟨fun h => absurd h.1 (by decide), fun h => absurd h.1 (by decide)⟩
  have hc : commentAt? (c :: ',' :: cs) = none := by
    refine commentAt?_cons_eq_none_iff.2 ⟨fun h => ?_, ?_⟩
    · exact absurd (Option.some.inj h.2) (by decide)
    · rintro ⟨-, more, he, -⟩
      exact absurd (List.cons.inj he).1 (by decide)
  exact ⟨fun hm => matches_comment.1 hm hc, fun hm => matches_comment.1 hm hcomma, trivial⟩

section Quote

variable {q : Char} (hq : AroundNames q) {inner : List Char} (hinner : ∀ d ∈ inner, InName d)

include hq hinner

/-- A name between quote marks. -/
theorem follows_quoted {c : Char} {name : List Char} (hline : c ≠ '\n') (cs : List Char) :
    Follows (q :: inner ++ [q] ++ cs) (c :: name ++ cs) where
  head d hd hhead := by
    obtain rfl : q = d := Option.some.inj hhead
    rcases hq with rfl | rfl <;> exact absurd hd (by decide)
  close hnew := by
    have hmark : q ∉ ['*', '/'] := by
      rcases hq with rfl | rfl <;> decide
    have hcut : ['*', '/'] <:+: [] ++ q :: (inner ++ q :: cs) := by simpa using hnew
    rcases isInfix_of_isInfix_cut hmark hcut with hnil | hmore
    · exact absurd (List.infix_nil.1 hnil) (List.cons_ne_nil _ _)
    · rcases isInfix_of_isInfix_cut hmark hmore with hname | hrest
      · exact absurd (by decide) (hinner '*' (hname.subset (.head _)))
      · exact hrest.trans (List.suffix_append _ _).isInfix
  block more he _ := by
    obtain rfl : q = '*' := (List.cons.inj he).1
    rcases hq with h | h <;> exact absurd h (by decide)
  line hold := absurd (hold c rfl) hline

theorem passes_quoted (cs : List Char) :
    Passes (Matches commentPattern) none (q :: inner ++ [q]) cs := by
  have hplain : ∀ d ∈ q :: inner ++ [q], d ≠ '-' ∧ d ≠ '/' := by
    intro d hd
    rcases mem_quoted hd with rfl | hd
    · rcases hq with rfl | rfl <;> decide
    · refine ⟨?_, ?_⟩ <;> rintro rfl <;> exact hinner _ hd (by decide)
  generalize q :: inner ++ [q] = w at hplain
  generalize (none : Option Char) = before
  induction w generalizing before with
  | nil => trivial
  | cons d w ih =>
    obtain ⟨⟨hdash, hslash⟩, hw⟩ := List.forall_mem_cons.1 hplain
    refine ⟨fun hm => matches_comment.1 hm ?_, ih hw _⟩
    exact commentAt?_cons_eq_none_iff.2 ⟨fun h => hdash h.1, fun h => hslash h.1⟩

end Quote

/-- **A repair leaves comments as they are**, with any text on either side. -/
theorem Stands.repairs {q : Char} (hq : AroundNames q) {a b : List Char} (hrep : Repairs q a b)
    (hx : WholeMarks x) (hz : WholeMarks z) (h : Stands pieces (x ++ (a ++ z)) ws) :
    Stands pieces (x ++ (b ++ z)) ws := by
  induction hrep generalizing x z ws with
  | same => exact h
  | @comma c hc =>
    have hcomma : '\x00' ∉ [c, ','] := by simpa using hc.symm
    have hone : '\x00' ∉ [c] := by simpa using hc.symm
    have hboth := (wholeMarks_of_noNul hcomma).append hz
    refine h.behind hx ((wholeMarks_of_noNul hone).append hz) hboth ?_ fun ws h => ?_
    · rw [restore_append (wholeMarks_of_noNul hone) hz, restore_of_noNul hone,
        restore_append (wholeMarks_of_noNul hcomma) hz, restore_of_noNul hcomma]
      exact follows_comma c _
    · exact (stands_append_iff hcomma hz).2 ⟨passes_comma _, ((stands_append_iff hone hz).1 h).2⟩
  | @quote c name inner hline hold hnew _ =>
    have hname := noNul_of_inName hold
    have hquoted := noNul_of_quoted hq hnew
    refine h.behind hx ((wholeMarks_of_noNul hname).append hz)
      ((wholeMarks_of_noNul hquoted).append hz) ?_ fun ws h => ?_
    · rw [restore_append (wholeMarks_of_noNul hname) hz, restore_of_noNul hname,
        restore_append (wholeMarks_of_noNul hquoted) hz, restore_of_noNul hquoted]
      exact follows_quoted hq hnew hline _
    · exact (stands_append_iff hquoted hz).2
        ⟨passes_quoted hq hnew _, ((stands_append_iff hname hz).1 h).2⟩
  | append hrep hrep' ih ih' =>
    rw [List.append_assoc] at h ⊢
    have hfirst := ih hx ((hrep'.wholeMarks hq).1.append hz) h
    rw [← List.append_assoc] at hfirst ⊢
    exact ih' (hx.append (hrep.wholeMarks hq).2) hz hfirst
  | trans _ _ ih ih' => exact ih' hx hz (ih hx hz h)

/-! ## Comments that are put aside -/

/-- Marks for the comments of a text. -/
theorem stands_segmentsAfter {before : Option Char} {cs : List Char} {n : Nat}
    (hgaps : ∀ g, .gap g ∈ segmentsAfter commentPattern before cs → '\x00' ∉ g)
    (hpieces : matchesOf (segmentsAfter commentPattern before cs) <+: pieces.drop n) :
    Stands pieces (markFrom n (segmentsAfter commentPattern before cs))
        (matchesOf (segmentsAfter commentPattern before cs)) ∧
      restore pieces (markFrom n (segmentsAfter commentPattern before cs)) = cs := by
  fun_induction segmentsAfter commentPattern before cs generalizing n with
  | case1 before cs hs =>
    have hfree : '\x00' ∉ cs := hgaps cs (.head _)
    have hnil : restore pieces [] = [] := restore_of_noNul List.not_mem_nil
    refine ⟨(stands_append_iff hfree .nil).2 ⟨?_, .nil⟩, ?_⟩
    · rw [hnil]
      exact passes_comment (passes_of_search_eq_none hs)
    · show restore pieces (cs ++ []) = cs
      rw [List.append_nil, restore_of_noNul hfree]
  | case2 before cs passed parts hs hempty =>
    exact absurd hempty (not_empty_of_search solid_comment hs).2
  | case3 before cs passed parts hs hne ih =>
    obtain ⟨xs, rest, hpassed, rfl, hpasses, hm⟩ := passes_of_search hs
    rw [List.append_nil] at hpassed
    subst hpassed
    rw [matchAt?_commentPattern] at hm
    obtain ⟨w, hw, rfl⟩ := Option.map_eq_some_iff.1 hm
    have hdrop : (xs ++ ([w].flatten ++ rest)).drop (xs.reverse.length + [w].flatten.length) =
        rest := by
      rw [List.length_reverse, ← List.append_assoc, ← List.length_append, List.drop_left]
    have hgap : '\x00' ∉ xs := hgaps xs (by rw [List.reverse_reverse]; exact .head _)
    obtain ⟨hat, hmore⟩ := pieceAt_of_prefix hpieces
    obtain ⟨hstands, hback⟩ := ih (fun g hg => hgaps g (.tail _ (.tail _ hg))) hmore
    rw [hdrop] at hstands hback ⊢
    generalize hcut : segmentsAfter commentPattern _ rest = cut at hstands hback ⊢
    have hw' : commentAt? (pieceAt pieces n ++ restore pieces (markFrom (n + 1) cut)) =
        some (pieceAt pieces n) := by
      rw [hat, hback, hw, List.flatten_singleton]
    have hmark := Stands.comment n hw' hstands
    have hrest : restore pieces (mark n ++ markFrom (n + 1) cut) = [w].flatten ++ rest := by
      rw [restore_mark n hstands.wholeMarks, hat, hback]
    rw [List.reverse_reverse]
    refine ⟨?_, ?_⟩
    · have hboth := (stands_append_iff hgap hmark.wholeMarks).2
        ⟨hrest.symm ▸ passes_comment hpasses, hmark⟩
      rw [hat] at hboth
      exact hboth
    · show restore pieces (xs ++ (mark n ++ markFrom (n + 1) cut)) = _
      rw [restore_append (wholeMarks_of_noNul hgap) hmark.wholeMarks, restore_of_noNul hgap, hrest]

/-- Marks for statements without comments. -/
theorem stands_markFrom {cut : List Segment} {n : Nat} (hgaps : ∀ g, .gap g ∈ cut → WholeMarks g)
    (hfound : ∀ parts, .found parts ∈ cut → '\x00' ∉ parts.flatten)
    (hpieces : matchesOf cut <+: pieces.drop n) (h : Stands pieces (cut.flatMap Segment.text) ws) :
    Stands pieces (markFrom n cut) ws := by
  induction cut generalizing n ws with
  | nil => exact h
  | cons piece cut ih =>
    have hgaps' : ∀ g, .gap g ∈ cut → WholeMarks g := fun g hg => hgaps g (.tail _ hg)
    have hfound' : ∀ parts, .found parts ∈ cut → '\x00' ∉ parts.flatten :=
      fun parts hp => hfound parts (.tail _ hp)
    have htext : WholeMarks (cut.flatMap Segment.text) := by
      refine wholeMarks_flatMap fun piece hp => ?_
      cases piece with
      | gap g => exact hgaps' g hp
      | found parts => exact wholeMarks_of_noNul (hfound' parts hp)
    rw [List.flatMap_cons] at h
    cases piece with
    | gap g =>
      have hback : restore pieces (markFrom n cut) = _ :=
        restore_markFrom_of_noNul hgaps' hfound' hpieces
      exact h.behind (hgaps g (.head _)) htext (wholeMarks_markFrom hgaps')
        (hback ▸ Follows.refl _) fun ws h => ih hgaps' hfound' hpieces h
    | found parts =>
      obtain ⟨hat, hmore⟩ := pieceAt_of_prefix hpieces
      obtain ⟨hpasses, h⟩ := (stands_append_iff (hfound parts (.head _)) htext).1 h
      refine .statement n ?_ (ih hgaps' hfound' hmore h)
      rw [hat, restore_markFrom_of_noNul hgaps' hfound' hmore]
      exact hpasses

/-- **What is put aside of a text**: its comments stand where they stood. -/
theorem stands_putAside {cs : List Char} (h : NulInComments cs) (hkeys : CommentsOutsideKeys cs) :
    Stands (putAside cs).pieces (putAside cs).text (comments cs) := by
  have hcomments : matchesOf (segments commentPattern cs) <+: (putAside cs).pieces.drop 0 :=
    List.prefix_append _ _
  refine stands_markFrom (fun _ hg => wholeMarks_pieces h hg)
    (fun parts hp => hkeys parts (mem_occurrences.2 hp)) (pieces_of_keys cs) ?_
  rw [flatten_segments]
  exact (stands_segmentsAfter h hcomments).1

/-! ## The whole text -/

/-- **What is put aside comes back.** A normal text has no NUL that the text had not, and the
comments of the text if that has no line that begins the foreign keys: exactly if no comment stands
inside a statement that adds a foreign key. -/
theorem comments_normalize_iff {text : String} (hfree : '\x00' ∉ text.toList) :
    ('\x00' ∉ (normalize text).toList ∧
      (holds Ddl.keySectionMark.toList text.toList = false →
        comments (normalize text).toList = comments text.toList)) ↔
      CommentsOutsideKeys text.toList := by
  unfold normalize
  rw [String.toList_ofList, noNul_normalizeChars_iff hfree]
  refine and_iff_left_of_imp fun hkeys hmark => ?_
  obtain ⟨repaired, hrep, -, he⟩ := exists_repairs_kept hfree (Dialect.detect text) hmark hkeys
  have hstands := stands_putAside (nulInComments_of_noNul hfree) hkeys
  have hkept := Stands.repairs (aroundNames_quoteMark _) hrep .nil .nil
    (show Stands _ ([] ++ (_ ++ [])) _ by rwa [List.append_nil, List.nil_append])
  rw [List.append_nil, List.nil_append] at hkept
  rw [he]
  exact hkept.matchesOf_segmentsAfter none

set_option maxRecDepth 1024 in
theorem comments_normalize_keyBeforeComment :
    '\x00' ∉ keyBeforeComment.toList ∧ '\x00' ∉ (normalize keyBeforeComment).toList ∧
      (holds Ddl.keySectionMark.toList keyBeforeComment.toList = false →
        comments (normalize keyBeforeComment).toList = comments keyBeforeComment.toList) := by
  have hfree : '\x00' ∉ keyBeforeComment.toList := by decide
  exact ⟨hfree, (comments_normalize_iff hfree).2 commentsOutsideKeys_keyBeforeComment⟩

/-- A comment inside a statement is put aside, then the statement with the mark of the comment. What
comes back is the statement with the mark: the comment is lost, and a NUL is in the text. -/
theorem comments_normalize_inside :
    let text := "ALTER TABLE a ADD FOREIGN KEY (x) REFERENCES b(y) /* c */;"
    '\x00' ∉ text.toList ∧ holds Ddl.keySectionMark.toList text.toList = false ∧
      '\x00' ∈ (normalize text).toList ∧
      comments (normalize text).toList ≠ comments text.toList := by
  decide +kernel

end DdlGraph.Repair
