import DdlGraph.Proofs.StatementEnds
import DdlGraph.Proofs.StatementLines

/-!
# Statements behind a semicolon

A text is followed by a semicolon, a line break and another text. The pieces of the two texts part at
the semicolon, if it is a piece of its own, and so do their tokens. What follows is then read on its
own lines as it is read alone, unless a list was left open.

* `lexemes_append`, `placeTokens_append`: pieces and tokens part at a semicolon;
* `lexemes_noBackslash`: without a backslash the dialect does not change the pieces;
* `ofText_behind`: the script of both texts is made of theirs, or what follows is lost;
* `successors_kept_iff`: so a text damages none that follow it exactly if it leaves no list open.
-/

namespace DdlGraph.Sql

/-! ## Texts -/

/-- The piece of a semicolon. -/
def semicolonPiece : Lexeme :=
  ⟨[';'], some .semicolon⟩

theorem lexemes_semicolon (b : Bool) (more : List Char) :
    lexemes b (';' :: more) = semicolonPiece :: lexemes b more := by
  rw [lexemes, lexeme_mark (t := .semicolon) rfl]
  rfl

/-- Behind a semicolon the pieces are those of a text of its own. -/
theorem lexemes_append {b : Bool} {cs : List Char}
    (h : (lexemes b cs).getLast? = some semicolonPiece) (more : List Char) :
    lexemes b (cs ++ more) = lexemes b cs ++ lexemes b more := by
  fun_induction lexemes b cs with
  | case1 => cases h
  | case2 c cs ih =>
    by_cases hr : (lexeme b c cs).2 = []
    · rw [hr, lexemes] at h
      have hpiece : (lexeme b c cs).1 = semicolonPiece := Option.some.inj h
      have hraw := lexeme_raw_rest b c cs
      rw [hr, List.append_nil, hpiece] at hraw
      obtain ⟨rfl, rfl⟩ := List.cons.inj hraw
      rw [List.cons_append, List.nil_append, lexemes_semicolon, hr, hpiece, lexemes]
      rfl
    · rw [List.cons_append, lexemes, lexeme_append hr]
      dsimp only
      rw [ih ?_, List.cons_append]
      cases hcs : lexemes b (lexeme b c cs).2 with
      | nil =>
        have hflat := flatMap_raw_lexemes b (lexeme b c cs).2
        rw [hcs] at hflat
        exact absurd hflat.symm hr
      | cons m ms =>
        rw [hcs, List.getLast?_cons_cons] at h
        exact h

theorem placeTokens_cons (n : Nat) (l : Lexeme) (ls : List Lexeme) :
    placeTokens n (l :: ls) =
      (l.token.map (⟨·, n⟩)).toList ++ placeTokens (lineAfter n l.raw) ls := by
  rw [placeTokens]
  cases l.token <;> rfl

theorem placeTokens_ne_nil (n : Nat) (ls : List Lexeme) : placeTokens n ls ≠ [] := by
  induction ls generalizing n with
  | nil => exact List.cons_ne_nil _ _
  | cons l ls ih =>
    rw [placeTokens_cons]
    exact List.append_ne_nil_of_right_ne_nil _ (ih _)

theorem placeTokens_append (n : Nat) (ls ms : List Lexeme) :
    placeTokens n (ls ++ ms) =
      (placeTokens n ls).dropLast ++ placeTokens (lineAfter n (ls.flatMap Lexeme.raw)) ms := by
  induction ls generalizing n with
  | nil => rfl
  | cons l ls ih =>
    rw [List.cons_append, List.flatMap_cons, lineAfter_append, placeTokens_cons, placeTokens_cons, ih,
      List.dropLast_append_of_ne_nil (placeTokens_ne_nil _ ls), List.append_assoc]

theorem ofWord_ne_endOfText (word : String) : Token.ofWord word ≠ .endOfText := by
  unfold Token.ofWord
  split <;> exact nofun

theorem wordLexeme_ne_endOfText (c : Char) (cs : List Char) :
    (wordLexeme c cs).1.token ≠ some .endOfText := by
  unfold wordLexeme
  split
  · dsimp only
    split
    · exact nofun
    · exact fun h => ofWord_ne_endOfText _ (Option.some.inj h)
  · exact fun h => ofWord_ne_endOfText _ (Option.some.inj h)

/-- No piece of a text spells its end. -/
theorem lexeme_ne_endOfText (b : Bool) (c : Char) (cs : List Char) :
    (lexeme b c cs).1.token ≠ some .endOfText := by
  intro h
  cases opens c with
  | skip p hc | quote hc | string hc | number hc | stray hc =>
    rw [hc] at h
    cases h
  | minus hc =>
    rw [hc] at h
    unfold minusLexeme at h
    repeat' split at h
    all_goals cases h
  | slash hc =>
    rw [hc] at h
    unfold slashLexeme at h
    split at h <;> cases h
  | mark t ht hc =>
    rw [hc] at h
    obtain rfl : t = .endOfText := Option.some.inj h
    exact absurd (punctuation?_mem ht) (by simp)
  | bracket hc =>
    rw [hc] at h
    unfold bracketLexeme at h
    split at h <;> cases h
  | word hc =>
    rw [hc] at h
    exact wordLexeme_ne_endOfText c cs h

theorem endOfText_not_mem_tokensOf (b : Bool) (cs : List Char) : .endOfText ∉ tokensOf b cs := by
  unfold tokensOf
  fun_induction lexemes b cs with
  | case1 => exact List.not_mem_nil
  | case2 c cs ih =>
    rw [List.filterMap_cons]
    have hpiece := lexeme_ne_endOfText b c cs
    split
    · exact ih
    · rename_i t ht
      simp only [List.mem_cons, not_or]
      exact ⟨fun h => hpiece (by rw [ht, h]), ih⟩

/-- The tokens of the first pieces of a text. -/
theorem inner_placeTokens (n : Nat) {b : Bool} {cs : List Char} {ls ms : List Lexeme}
    (h : lexemes b cs = ls ++ ms) : Inner (placeTokens n ls).dropLast := by
  intro p hp hend
  have htokens : ((placeTokens n ls).dropLast).map (·.token) = ls.filterMap Lexeme.token := by
    rw [List.map_dropLast, placeTokens_tokens, List.dropLast_concat]
  have hmem : Token.endOfText ∈ ls.filterMap Lexeme.token := by
    rw [← htokens, ← hend]
    exact List.mem_map_of_mem hp
  apply endOfText_not_mem_tokensOf b cs
  rw [tokensOf, h, List.filterMap_append]
  exact List.mem_append_left _ hmem

/-! ### Lines behind the semicolon -/

theorem placed_dropBlanks (b : Bool) (n : Nat) (cs : List Char) :
    placed b (lineAfter n (cs.takeWhile Text.isBlank)) (cs.dropWhile Text.isBlank) =
      placed b n cs := by
  cases cs with
  | nil => rfl
  | cons c cs =>
    by_cases hc : Text.isBlank c
    · rw [placed_cons, lexeme_blank hc]
      simp [skipped, hc]
    · simp [hc, lineAfter]

theorem placed_newline (b : Bool) (n : Nat) (cs : List Char) :
    placed b n ('\n' :: cs) = placed b (n + 1) cs := by
  have hline : lineAfter n ('\n' :: cs.takeWhile Text.isBlank) =
      lineAfter (n + 1) (cs.takeWhile Text.isBlank) := by
    simp only [lineAfter, List.count_cons_self]
    omega
  rw [← placed_dropBlanks b (n + 1), placed_cons, lexeme_blank (by decide), ← hline]
  rfl

theorem placeTokens_shift (k n : Nat) (ls : List Lexeme) :
    placeTokens (k + n) ls = relined (k + ·) (placeTokens n ls) := by
  induction ls generalizing n with
  | nil => rfl
  | cons l ls ih =>
    have hline : lineAfter (k + n) l.raw = k + lineAfter n l.raw := Nat.add_assoc _ _ _
    rw [placeTokens_cons, placeTokens_cons, hline, ih]
    cases l.token <;> rfl

/-! ### Backslashes -/

theorem delimited_noBackslash {close : Char} {b : Bool} {cs : List Char} (h : '\\' ∉ cs) :
    delimited close b cs = delimited close false cs := by
  fun_induction delimited close b cs with
  | case2 c hc =>
    have hclose : c = close := hc.resolve_right fun hb => h (by simp [hb.1])
    simp [delimited, hclose]
  | _ => simp_all [delimited]

theorem lexeme_noBackslash {b : Bool} {c : Char} {cs : List Char} (h : '\\' ∉ cs) :
    lexeme b c cs = lexeme false c cs := by
  cases opens c with
  | string hc =>
    rw [hc, hc]
    unfold stringLiteral
    rw [delimited_noBackslash h]
  | skip p hc | minus hc | slash hc | mark t ht hc | quote hc | bracket hc | number hc | word hc
  | stray hc => rw [hc, hc]

/-- **Without a backslash** nothing depends on what one means. -/
theorem lexemes_noBackslash {b : Bool} {cs : List Char} (h : '\\' ∉ cs) :
    lexemes b cs = lexemes false cs := by
  fun_induction lexemes b cs with
  | case1 => rw [lexemes]
  | case2 c cs ih =>
    have hcs : '\\' ∉ cs := fun hmem => h (List.mem_cons_of_mem _ hmem)
    have hrest : '\\' ∉ (lexeme b c cs).2 := by
      have hraw := lexeme_raw_rest b c cs
      intro hmem
      apply h
      rw [← hraw]
      exact List.mem_append_right _ hmem
    rw [ih hrest, lexemes, lexeme_noBackslash hcs]

/-! ## What follows a text -/

/-- **The text takes a semicolon**: one behind it is a piece of its own. The text does not end inside
a string, a quoted name or a comment. -/
def TakesSemicolon (text : String) : Prop :=
  (lexemes false (text.toList ++ [';'])).getLast? = some semicolonPiece

instance (text : String) : Decidable (TakesSemicolon text) :=
  inferInstanceAs (Decidable (_ = _))

/-- **The text leaves a list open**: a semicolon and a parenthesis behind it, which opens a list, run
into the end of the text. -/
def LeavesListOpen (text : String) : Prop :=
  .endOfText ∈ (Script.ofText (text ++ ";(")).errors

instance (text : String) : Decidable (LeavesListOpen text) :=
  inferInstanceAs (Decidable (_ ∈ _))

/-- The tokens before the semicolon, and those behind it on their lines. -/
theorem exists_placed {a : List Char}
    (h : (lexemes false (a ++ [';'])).getLast? = some semicolonPiece) :
    ∃ ts : Input, Inner ts ∧ ∀ more, placed false 1 (a ++ ';' :: more) =
      ts ++ semicolonAt (lineAfter 1 a) :: placed false (lineAfter 1 a) more := by
  obtain ⟨ls, hls⟩ : ∃ ls, lexemes false (a ++ [';']) = ls ++ [semicolonPiece] :=
    List.getLast?_eq_some_iff.1 h
  have hraw : ls.flatMap Lexeme.raw = a := by
    have hflat := flatMap_raw_lexemes false (a ++ [';'])
    rw [hls, List.flatMap_append] at hflat
    exact List.append_cancel_right hflat
  refine ⟨(placeTokens 1 ls).dropLast, inner_placeTokens 1 hls, fun more => ?_⟩
  have hsplit : a ++ ';' :: more = a ++ [';'] ++ more := by
    rw [List.append_assoc, List.singleton_append]
  rw [placed, hsplit, lexemes_append h, hls, List.append_assoc, List.singleton_append,
    placeTokens_append, hraw, placeTokens_cons]
  rfl

theorem ofText_of_noBackslash {text : String} (h : '\\' ∉ text.toList) :
    Script.ofText text = .ofTokens (placed false 1 text.toList) := by
  rw [Script.ofText, tokens, placed, lexemes_noBackslash h]

/-- The text behind a semicolon and a line break is read on its own lines. -/
theorem placed_behind (n : Nat) (cs : List Char) :
    placed false n ('\n' :: cs) = relined (n + ·) (placed false 1 cs) := by
  rw [placed_newline, placed, placeTokens_shift]
  rfl

theorem opensOnly_behind (n : Nat) {cs : List Char} (h : OpensOnly (placed false 1 cs)) :
    OpensOnly (placed false n ('\n' :: cs)) := by
  rw [placed_behind]
  refine ⟨(nextToken_relined _ _).trans h.1, fun p hp => ?_⟩
  obtain ⟨q, hq, rfl⟩ := List.mem_map.1 hp
  exact h.2 q hq

theorem placed_lparen (n : Nat) : placed false n ['('] = [⟨.lparen, n⟩, ⟨.endOfText, n⟩] := by
  rw [placed_cons, lexeme_mark (t := .lparen) rfl]
  simp [spelled, placed, lexemes, placeTokens, lineAfter]

theorem Script.ofTokens_lparen (n : Nat) :
    Script.ofTokens [⟨.lparen, n⟩, ⟨.endOfText, n⟩] = {} := by
  rw [Script.ofTokens_cons (p := ⟨.lparen, n⟩) nofun]
  simp [statement, Script.after, Step.ok, Script.ofTokens]

/-- **A text that takes a semicolon** either leaves no list open, and what follows is read for itself,
or leaves one open, and what opens lists only is lost. -/
theorem ofText_behind {a : String} (ha : '\\' ∉ a.toList) (hsemi : TakesSemicolon a) :
    (¬ LeavesListOpen a ∧ ∃ s : Script, ∀ b : String, '\\' ∉ b.toList →
      Script.ofText (a ++ ";\n" ++ b) =
        s.append ((Script.ofText b).reline (lineAfter 1 a.toList + ·))) ∨
    (LeavesListOpen a ∧ ∃ s : Script, ∀ b : String, '\\' ∉ b.toList →
      OpensOnly (placed false 1 b.toList) → Script.ofText (a ++ ";\n" ++ b) = s) := by
  obtain ⟨ts, hinner, hts⟩ := exists_placed hsemi
  have hbehind (b : String) (hb : '\\' ∉ b.toList) : Script.ofText (a ++ ";\n" ++ b) =
      .ofTokens (ts ++ semicolonAt (lineAfter 1 a.toList) ::
        placed false (lineAfter 1 a.toList) ('\n' :: b.toList)) := by
    have hchars : (a ++ ";\n" ++ b).toList = a.toList ++ ';' :: '\n' :: b.toList := by simp
    rw [ofText_of_noBackslash (by simp [hchars, ha, hb]), hchars, hts]
  have hopen : Script.ofText (a ++ ";(") =
      .ofTokens (ts ++ semicolonAt (lineAfter 1 a.toList) ::
        placed false (lineAfter 1 a.toList) ['(']) := by
    have hchars : (a ++ ";(").toList = a.toList ++ ';' :: ['('] := by simp
    rw [ofText_of_noBackslash (by simp [hchars, ha]), hchars, hts]
  cases closes (n := lineAfter 1 a.toList) hinner with
  | parts s inside reads =>
    refine .inl ⟨?_, s, fun b hb => ?_⟩
    · unfold LeavesListOpen
      rw [hopen, reads, placed_lparen, Script.ofTokens_lparen]
      simpa [Script.append] using inside
    · rw [hbehind b hb, reads, placed_behind, Script.ofTokens_relined, ofText_of_noBackslash hb]
  | runsOut s early reads =>
    refine .inr ⟨?_, s, fun b hb hopens => ?_⟩
    · unfold LeavesListOpen
      rw [hopen, placed_lparen, reads _ (by simp [OpensOnly, nextToken])]
      exact early
    · rw [hbehind b hb]
      exact reads _ (opensOnly_behind _ hopens)

/-- **What follows a semicolon is read for itself**, whatever it is, exactly if the text before the
semicolon leaves no list open. -/
theorem successors_kept_iff {a : String} (ha : '\\' ∉ a.toList) (hsemi : TakesSemicolon a) :
    (∀ b : String, '\\' ∉ b.toList →
      ((Script.ofText b).reline (lineAfter 1 a.toList + ·)).statements <:+
        (Script.ofText (a ++ ";\n" ++ b)).statements) ↔ ¬ LeavesListOpen a := by
  rcases ofText_behind ha hsemi with ⟨hclosed, s, hs⟩ | ⟨hopen, s, hs⟩
  · refine iff_of_true (fun b hb => ?_) hclosed
    rw [hs b hb]
    exact List.suffix_append _ _
  · refine iff_of_false (fun h => ?_) (not_not_intro hopen)
    -- Two texts that open a list are lost alike, though their statements differ.
    have hunnamed := h "(CREATE TABLE" (by decide)
    have hnamed := h "(CREATE TABLE t" (by decide)
    rw [hs _ (by decide) (by decide +kernel)] at hunnamed hnamed
    have hone : (Script.ofText "(CREATE TABLE").statements = [.malformedTable none 1] := by
      decide +kernel
    have htwo : (Script.ofText "(CREATE TABLE t").statements = [.malformedTable (some "t") 1] := by
      decide +kernel
    simp only [Script.reline, hone, htwo, List.map_cons, List.map_nil] at hunnamed hnamed
    obtain ⟨front, hfront⟩ := hunnamed
    obtain ⟨front', hfront'⟩ := hnamed
    have hlast := (List.append_inj' (hfront.trans hfront'.symm) rfl).2
    exact absurd (List.cons.inj hlast).1 nofun

theorem successors_kept_unclosed_table :
    '\\' ∉ "CREATE TABLE t (a INT".toList ∧ TakesSemicolon "CREATE TABLE t (a INT" ∧
      ∀ b : String, '\\' ∉ b.toList →
        ((Script.ofText b).reline (lineAfter 1 "CREATE TABLE t (a INT".toList + ·)).statements <:+
          (Script.ofText ("CREATE TABLE t (a INT" ++ ";\n" ++ b)).statements :=
  ⟨by decide, by decide +kernel,
    (successors_kept_iff (by decide) (by decide +kernel)).2 (by decide +kernel)⟩

/-- The parameters of a type that are left open take in the statement behind the semicolon. -/
theorem successors_kept_varchar :
    .semicolon ∉ tokensOf false "CREATE TABLE t (a VARCHAR(10".toList ∧
      TakesSemicolon "CREATE TABLE t (a VARCHAR(10" ∧
      ¬ ((Script.ofText "CREATE TABLE u (id INT);").reline
          (lineAfter 1 "CREATE TABLE t (a VARCHAR(10".toList + ·)).statements <:+
        (Script.ofText
          ("CREATE TABLE t (a VARCHAR(10" ++ ";\n" ++ "CREATE TABLE u (id INT);")).statements := by
  refine ⟨by decide +kernel, by decide +kernel, ?_⟩
  decide +kernel

end DdlGraph.Sql
