import DdlGraph.Proofs.SettledText

/-!
# What repairs keep of a text

Repairs put in commas and quote marks, and they change the white space of names. Whatever else a
text has stays, in its order (`letters`), unless a comment stands inside a statement that adds a
foreign key: such a comment is put aside twice and put back once, so its mark is left
(`CommentsOutsideKeys`).

* `Repairs.letters_eq`, `Repairs.isInfix_of_isInfix`: what one repair keeps, whatever is put back;
* `exists_repairs`, `exists_repairs_kept`: a normal text is a repaired one with everything put back;
* `noNul_normalizeChars_iff`: whether a mark is left;
* `letters_normalize_iff`: a normal text has the letters of the text.
-/

namespace DdlGraph.Repair

open DdlGraph.Text DdlGraph.Sql

/-! ## Letters -/

/-- White space, a comma, or a mark around names: what repairs put in or take out. -/
def isRepairMark (c : Char) : Bool :=
  isBlank c || c == ',' || c == '"' || c == '`'

/-- **The letters of a text**: what is left when white space, commas, double quotes and backticks
are erased. -/
def letters (cs : List Char) : List Char :=
  cs.filter (!isRepairMark ·)

theorem letters_append (a b : List Char) : letters (a ++ b) = letters a ++ letters b :=
  List.filter_append a b

theorem letters_of_mark {c : Char} (h : isRepairMark c = true) (cs : List Char) :
    letters (c :: cs) = letters cs :=
  List.filter_cons_of_neg (by rw [h]; exact Bool.false_ne_true)

theorem mem_letters {cs : List Char} {c : Char} :
    c ∈ letters cs ↔ c ∈ cs ∧ isRepairMark c = false := by
  unfold letters
  rw [List.mem_filter, Bool.not_eq_true']

/-- White space does not count among letters. -/
theorem letters_solid (cs : List Char) : letters (solid cs) = letters cs := by
  unfold letters solid
  rw [List.filter_filter]
  refine List.filter_congr fun c _ => ?_
  unfold isRepairMark
  cases isBlank c <;> simp

theorem AroundNames.isRepairMark {q : Char} (hq : AroundNames q) : isRepairMark q = true := by
  rcases hq with rfl | rfl <;> decide

theorem letters_quoted {q : Char} (hq : AroundNames q) (inner : List Char) :
    letters (q :: inner ++ [q]) = letters inner := by
  rw [List.cons_append, letters_of_mark hq.isRepairMark, letters_append,
    letters_of_mark hq.isRepairMark]
  exact List.append_nil _

/-! ## Repairs -/

section Repairs

variable {q : Char} (hq : AroundNames q) (pieces : List (List Char)) {a b : List Char}

include hq

/-- **Repairs keep the letters** of a text, once everything is put back. -/
theorem Repairs.letters_eq (h : Repairs q a b) :
    letters (restore pieces a) = letters (restore pieces b) := by
  induction h with
  | same => rfl
  | @comma c hc =>
    have hone : WholeMarks [c] := .char hc .nil
    have hcomma : WholeMarks [','] := .char (by decide) .nil
    have hsplit : restore pieces [c, ','] = restore pieces [c] ++ restore pieces [','] :=
      restore_append hone hcomma
    have hmark : restore pieces [','] = [','] := restore_of_noNul (by decide)
    rw [hsplit, letters_append, hmark, letters_of_mark (by decide)]
    exact (List.append_nil _).symm
  | quote _ hold hnew hsolid =>
    rw [restore_of_noNul (noNul_of_inName hold), restore_of_noNul (noNul_of_quoted hq hnew),
      letters_quoted hq, ← letters_solid, hsolid, letters_solid]
  | append h h' ih ih' =>
    rw [restore_append (h.wholeMarks hq).1 (h'.wholeMarks hq).1,
      restore_append (h.wholeMarks hq).2 (h'.wholeMarks hq).2, letters_append, letters_append, ih,
      ih']
  | trans _ _ ih ih' => exact ih.trans ih'

omit hq in
/-- A text without a character is found on one side of it. -/
theorem isInfix_of_isInfix_cut {needle before after : List Char} {c : Char} (hc : c ∉ needle)
    (h : needle <:+: before ++ c :: after) : needle <:+: before ∨ needle <:+: after := by
  obtain ⟨s, t, he⟩ := h
  rw [List.append_assoc] at he
  rcases List.append_eq_append_iff.1 he with ⟨v, rfl, hv⟩ | ⟨v, rfl, hv⟩
  · rcases List.append_eq_append_iff.1 hv with ⟨w, rfl, -⟩ | ⟨w, rfl, hw⟩
    · exact .inl ⟨s, w, by rw [List.append_assoc]⟩
    · cases w with
      | nil => exact .inl ⟨s, [], by rw [List.append_nil, List.append_nil]⟩
      | cons d w =>
        obtain ⟨rfl, -⟩ := List.cons.inj hw
        exact absurd (List.mem_append_right v (.head w)) hc
  · cases v with
    | nil =>
      cases needle with
      | nil => exact .inl List.nil_infix
      | cons d needle =>
        obtain ⟨rfl, -⟩ := List.cons.inj hv
        exact absurd (.head needle) hc
    | cons d v =>
      obtain ⟨-, rfl⟩ := List.cons.inj hv
      exact .inr ⟨v, t, List.append_assoc _ _ _⟩

/-- **Repairs bring nothing together**: what has neither commas nor quote marks, and a character
that no name has, stood in the text before. -/
theorem Repairs.isInfix_of_isInfix {needle : List Char} (hcomma : ',' ∉ needle) (hquote : q ∉ needle)
    (htelling : ∃ c ∈ needle, ¬InName c) (h : Repairs q a b) (x z : List Char)
    (hb : needle <:+: x ++ (restore pieces b ++ z)) :
    needle <:+: x ++ (restore pieces a ++ z) := by
  induction h generalizing x z with
  | same => exact hb
  | @comma c hc =>
    have hmark : restore pieces [','] = [','] := restore_of_noNul (by decide)
    rw [restore_cons hc (.char (by decide) .nil), hmark] at hb
    rw [restore_cons hc .nil, restore_of_noNul List.not_mem_nil]
    have hcut : needle <:+: (x ++ [c]) ++ ',' :: z := by simpa using hb
    have hsame : x ++ ([c] ++ z) = (x ++ [c]) ++ z := (List.append_assoc _ _ _).symm
    rw [hsame]
    rcases isInfix_of_isInfix_cut hcomma hcut with hx | hz
    · exact hx.trans (List.prefix_append _ _).isInfix
    · exact hz.trans (List.suffix_append _ _).isInfix
  | @quote c name inner _ hold hnew _ =>
    rw [restore_of_noNul (noNul_of_quoted hq hnew)] at hb
    rw [restore_of_noNul (noNul_of_inName hold)]
    have hcut : needle <:+: x ++ q :: (inner ++ q :: z) := by simpa using hb
    rcases isInfix_of_isInfix_cut hquote hcut with hx | hmore
    · exact hx.trans (List.prefix_append _ _).isInfix
    · rcases isInfix_of_isInfix_cut hquote hmore with hname | hz
      · obtain ⟨d, hd, hin⟩ := htelling
        exact absurd (hnew d (hname.subset hd)) hin
      · exact hz.trans ((List.suffix_append _ _).trans (List.suffix_append _ _)).isInfix
  | @append a b a' b' h h' ih ih' =>
    rw [restore_append (h.wholeMarks hq).2 (h'.wholeMarks hq).2, List.append_assoc] at hb
    rw [restore_append (h.wholeMarks hq).1 (h'.wholeMarks hq).1, List.append_assoc]
    have hfirst := ih x _ hb
    rw [← List.append_assoc] at hfirst ⊢
    exact ih' _ z hfirst
  | trans _ _ ih ih' => exact ih x z (ih' x z hb)

end Repairs

/-! ## The whole text -/

/-- **No comment stands inside a statement that adds a foreign key.** Such a statement is found in
the text with a mark for each comment, so a NUL in it is one of a comment. -/
def CommentsOutsideKeys (cs : List Char) : Prop :=
  ∀ parts ∈ occurrences addedKeyPattern (withoutComments cs).text, '\x00' ∉ parts.flatten

/-- **A normal text** is a repaired text with everything put back, without repeated constraints. -/
theorem exists_repairs {cs : List Char} (h : NulInComments cs) (dialect : Dialect) :
    ∃ repaired, Repairs dialect.quoteMark (putAside cs).text repaired ∧
      normalizeChars dialect cs = dropRepeatedKeys (restore (putAside cs).pieces repaired) := by
  have hq := aroundNames_quoteMark dialect
  have htables := repairs_repairTables (.ofText cs) hq (wholeMarks_putAside h) none
  exact ⟨_, htables.trans (repairs_targets hq (htables.wholeMarks hq).2).1, rfl⟩

section NormalText

variable {cs : List Char} (hfree : '\x00' ∉ cs) (dialect : Dialect)

include hfree

/-- **A NUL in a normal text** is left of a comment inside a statement that adds a foreign key. -/
theorem noNul_normalizeChars_iff :
    '\x00' ∉ normalizeChars dialect cs ↔ CommentsOutsideKeys cs := by
  have h := nulInComments_of_noNul hfree
  have hq := aroundNames_quoteMark dialect
  obtain ⟨repaired, hrep, he⟩ := exists_repairs h dialect
  have hcount := hrep.count_eq hq (.inr rfl) (putAside cs).pieces
  rw [he]
  constructor
  · intro hnone
    refine noNul_of_restore_putAside h ?_
    have hrestored : '\x00' ∉ restore (putAside cs).pieces repaired :=
      fun hmem => hnone (mem_dropRepeatedKeys (by decide) hmem)
    rwa [← List.count_eq_zero, hcount, List.count_eq_zero]
  · intro hkeys hmem
    have hrestored := (dropRepeatedKeys_sublist _).subset hmem
    rw [← List.count_pos_iff, ← hcount, List.count_pos_iff, restore_putAside h hkeys] at hrestored
    exact hfree hrestored

/-- **Without the line that begins the foreign keys**, and with comments outside of statements that
add one, a normal text is the text with repairs in what is not put aside. -/
theorem exists_repairs_kept (hmark : holds Ddl.keySectionMark.toList cs = false)
    (hkeys : CommentsOutsideKeys cs) :
    ∃ repaired, Repairs dialect.quoteMark (putAside cs).text repaired ∧
      restore (putAside cs).pieces (putAside cs).text = cs ∧
      normalizeChars dialect cs = restore (putAside cs).pieces repaired := by
  have h := nulInComments_of_noNul hfree
  have hq := aroundNames_quoteMark dialect
  obtain ⟨repaired, hrep, he⟩ := exists_repairs h dialect
  have hback := restore_putAside h hkeys
  refine ⟨repaired, hrep, hback, he.trans (dropRepeatedKeys_of_not_holds ?_)⟩
  rw [Bool.eq_false_iff] at hmark ⊢
  intro hholds
  have hquote : dialect.quoteMark ∉ Ddl.keySectionMark.toList := by
    cases dialect <;> decide
  have hdash : ¬InName '-' := fun hin => hin (by decide)
  have hstood := hrep.isInfix_of_isInfix hq (putAside cs).pieces (by decide) hquote
    ⟨'-', by decide, hdash⟩ [] [] (by simpa using holds_iff_isInfix.1 hholds)
  refine hmark (holds_iff_isInfix.2 ?_)
  rwa [hback, List.append_nil, List.nil_append] at hstood

end NormalText

/-- **Repairs are conservative.** In a text without NULs and without the line that begins the
foreign keys, normalization drops, repeats, moves and makes up no letter, exactly if no comment
stands inside a statement that adds a foreign key. -/
theorem letters_normalize_iff {text : String} (hfree : '\x00' ∉ text.toList)
    (hmark : holds Ddl.keySectionMark.toList text.toList = false) :
    letters (normalize text).toList = letters text.toList ↔ CommentsOutsideKeys text.toList := by
  unfold normalize
  rw [String.toList_ofList]
  constructor
  · intro he
    refine (noNul_normalizeChars_iff hfree (Dialect.detect text)).1 fun hmem => ?_
    have hleft := mem_letters.2 ⟨hmem, show isRepairMark '\x00' = false by decide⟩
    rw [he] at hleft
    exact hfree (mem_letters.1 hleft).1
  · intro hkeys
    obtain ⟨repaired, hrep, hback, he⟩ :=
      exists_repairs_kept hfree (Dialect.detect text) hmark hkeys
    have hkept := hrep.letters_eq (aroundNames_quoteMark _) (putAside text.toList).pieces
    rw [hback] at hkept
    rw [he, hkept]

/-- A foreign key that is added in front of a comment, and a name of two words. -/
def keyBeforeComment : String :=
  "CREATE TABLE a b (x INT);\nALTER TABLE c ADD FOREIGN KEY (x) REFERENCES d(y); -- e"

theorem commentsOutsideKeys_keyBeforeComment : CommentsOutsideKeys keyBeforeComment.toList := by
  unfold CommentsOutsideKeys
  decide +kernel

set_option maxRecDepth 1024 in
theorem letters_normalize_keyBeforeComment :
    '\x00' ∉ keyBeforeComment.toList ∧
      holds Ddl.keySectionMark.toList keyBeforeComment.toList = false ∧
      letters (normalize keyBeforeComment).toList = letters keyBeforeComment.toList := by
  have hfree : '\x00' ∉ keyBeforeComment.toList := by decide
  have hmark : holds Ddl.keySectionMark.toList keyBeforeComment.toList = false := by decide
  exact ⟨hfree, hmark,
    (letters_normalize_iff hfree hmark).2 commentsOutsideKeys_keyBeforeComment⟩

end DdlGraph.Repair
