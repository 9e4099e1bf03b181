import DdlGraph.Proofs.TokenLines

/-!
# Tokens, one character after another

The lexer cuts whole pieces off a text. A reader that counts its lines gets the same tokens by going
past one character after another: it looks at the character that it is at and at the one behind,
goes on by `LineReader.advance` alone, and takes the line of a token when white space is behind it.
The loops of this reader are written out here. Each of them hands on what the lexer cuts off, and
leaves the reader behind the piece, on the line that the line breaks of the piece lead to.

* `takeWhile_eq`, `commentFrom_eq`, `delimitedFrom_eq`, `readDigits_eq`: the loops;
* `round_eq`: one token, one comment or one stray character is one piece;
* `round_snd_eq_iterate`: the reader has gone past its characters one by one;
* `readAll_eq`: the reading of a whole text gives its `tokens`.
-/

namespace DdlGraph.Sql

namespace LineReader

/-! ## The reader -/

/-- The character that the reader is at. -/
def current? (r : LineReader) : Option Char :=
  r.rest.head?

/-- The character behind it. -/
def peek? (r : LineReader) : Option Char :=
  r.rest.tail.head?

theorem length_advance_lt (line : Nat) (c : Char) (cs : List Char) :
    (advance ⟨line, c :: cs⟩).rest.length < (c :: cs).length :=
  Nat.lt_succ_self _

theorem length_advance_le (r : LineReader) : r.advance.rest.length ≤ r.rest.length := by
  obtain ⟨line, _ | ⟨c, cs⟩⟩ := r
  · exact Nat.le_refl _
  · exact Nat.le_of_lt (length_advance_lt line c cs)

/-- Going past characters while `keep` holds of them. -/
def takeWhile (keep : Char → Bool) : LineReader → List Char × LineReader
  | ⟨line, []⟩ => ([], ⟨line, []⟩)
  | ⟨line, c :: cs⟩ =>
    if keep c then
      let (taken, r) := takeWhile keep (advance ⟨line, c :: cs⟩)
      (c :: taken, r)
    else ([], ⟨line, c :: cs⟩)
termination_by r => r.rest.length
decreasing_by exact length_advance_lt line c cs

/-- Going on in a block comment; `star` if a star came last. -/
def commentFrom (star : Bool) : LineReader → LineReader
  | ⟨line, []⟩ => ⟨line, []⟩
  | ⟨line, c :: cs⟩ =>
    let r := advance ⟨line, c :: cs⟩
    if star ∧ c = '/' then r else commentFrom (c == '*') r
termination_by r => r.rest.length
decreasing_by exact length_advance_lt line c cs

/-- The block comment whose star the reader is at. -/
def skipComment (r : LineReader) : LineReader :=
  commentFrom false r.advance

/-- Going on in a delimited text. A doubled `close` stands for itself, and with `backslash` a
backslash for the character behind it. -/
def delimitedFrom (close : Char) (backslash : Bool) : LineReader → List Char × LineReader
  | ⟨line, []⟩ => ([], ⟨line, []⟩)
  | ⟨line, c :: cs⟩ =>
    let r := advance ⟨line, c :: cs⟩
    if c = close then
      if r.current? = some close then
        let (text, s) := delimitedFrom close backslash r.advance
        (c :: text, s)
      else ([], r)
    else if c = '\\' ∧ backslash then
      match r.current? with
      | some escaped =>
        let (text, s) := delimitedFrom close backslash r.advance
        (unescape escaped :: text, s)
      -- a backslash that ends the text stands for nothing
      | none => delimitedFrom close backslash r
    else
      let (text, s) := delimitedFrom close backslash r
      (c :: text, s)
termination_by r => r.rest.length
decreasing_by
  · exact Nat.lt_of_le_of_lt (length_advance_le _) (length_advance_lt line c cs)
  · exact Nat.lt_of_le_of_lt (length_advance_le _) (length_advance_lt line c cs)
  · exact length_advance_lt line c cs
  · exact length_advance_lt line c cs

/-- The delimited text whose opening mark the reader is at. -/
def readDelimited (close : Char) (backslash : Bool) (r : LineReader) : List Char × LineReader :=
  delimitedFrom close backslash r.advance

/-- The digits of a number behind its sign, and those behind a point. -/
def readDigits (sign : List Char) (r : LineReader) : List Char × LineReader :=
  let (whole, r) := r.takeWhile Char.isDigit
  if r.current? = some '.' then
    let (part, r) := r.advance.takeWhile Char.isDigit
    (sign ++ (whole ++ '.' :: part), r)
  else (sign ++ whole, r)

/-- A number, with its sign. -/
def readNumber (r : LineReader) : List Char × LineReader :=
  if r.current? = some '-' then readDigits ['-'] r.advance else readDigits [] r

/-- A word, or the string that `E` and an apostrophe open. -/
def readWord (r : LineReader) : Token × LineReader :=
  let (word, r) := r.takeWhile isWordPart
  if (word = ['e'] ∨ word = ['E']) ∧ r.current? = some '\'' then
    let (text, r) := r.readDelimited '\'' true
    (.str (.ofList text), r)
  else (.ofWord (.ofList word), r)

/-- **One round** of a reader at `c`, which is not white: a token, or none for a comment and for a
character that carries no structure. -/
def round (b : Bool) (c : Char) (r : LineReader) : Option Token × LineReader :=
  if c = '-' ∧ r.peek? = some '-' then (none, (r.takeWhile (· ≠ '\n')).2)
  else if c = '-' ∧ r.peek?.any Char.isDigit then
    let (digits, r) := r.readNumber
    (some (.num (.ofList digits)), r)
  else if c = '#' then (none, (r.takeWhile (· ≠ '\n')).2)
  else if c = '/' then
    let r := r.advance
    (none, if r.current? = some '*' then r.skipComment else r)
  else match punctuation? c with
    | some t => (some t, r.advance)
    | none =>
      if c = '"' ∨ c = '`' then
        let (name, r) := r.readDelimited c false
        (some (.quotedIdent (.ofList name)), r)
      else if c = '[' ∧ r.peek? = some ']' then (some .arraySuffix, r.advance.advance)
      else if c = '[' then
        let (name, r) := r.readDelimited ']' false
        (some (.quotedIdent (.ofList name)), r)
      else if c = '\'' then
        let (text, r) := r.readDelimited '\'' b
        (some (.str (.ofList text)), r)
      else if c.isDigit then
        let (digits, r) := r.readNumber
        (some (.num (.ofList digits)), r)
      else if isWordStart c then
        let (t, r) := r.readWord
        (some t, r)
      else (none, r.advance)

/-! ## Loops -/

theorem current?_cons (line : Nat) (c : Char) (cs : List Char) :
    current? ⟨line, c :: cs⟩ = some c :=
  rfl

theorem exists_of_current? {line : Nat} {cs : List Char} {c : Char}
    (h : current? ⟨line, cs⟩ = some c) : ∃ rest, cs = c :: rest :=
  List.head?_eq_some_iff.1 h

theorem advance_cons (line : Nat) (c : Char) (cs : List Char) :
    advance ⟨line, c :: cs⟩ = ⟨lineAfter line [c], cs⟩ := by
  by_cases hc : c = '\n' <;> simp [advance, lineAfter, hc]

theorem takeWhile_eq (keep : Char → Bool) (line : Nat) (cs : List Char) :
    takeWhile keep ⟨line, cs⟩ =
      (cs.takeWhile keep, ⟨lineAfter line (cs.takeWhile keep), cs.dropWhile keep⟩) := by
  induction cs generalizing line with
  | nil => rw [takeWhile]; rfl
  | cons c cs ih =>
    rw [takeWhile]
    split
    · rename_i hc
      rw [advance_cons, ih, List.takeWhile_cons_of_pos hc, List.dropWhile_cons_of_pos hc,
        lineAfter_lineAfter]
      rfl
    · rename_i hc
      rw [List.takeWhile_cons_of_neg hc, List.dropWhile_cons_of_neg hc]
      rfl

theorem commentFrom_eq (star : Bool) (line : Nat) (cs : List Char) :
    commentFrom star ⟨line, cs⟩ =
      ⟨lineAfter line (blockComment star cs).1, (blockComment star cs).2⟩ := by
  induction cs generalizing star line with
  | nil => rw [commentFrom]; rfl
  | cons c cs ih =>
    rw [commentFrom, blockComment]
    split
    · exact advance_cons line c cs
    · rw [advance_cons, ih, lineAfter_lineAfter]
      rfl

theorem delimitedFrom_nil (close : Char) (backslash : Bool) (line : Nat) :
    delimitedFrom close backslash ⟨line, []⟩ = ([], ⟨line, []⟩) := by
  rw [delimitedFrom]

theorem delimitedFrom_eq (close : Char) (backslash : Bool) (line : Nat) (cs : List Char) :
    delimitedFrom close backslash ⟨line, cs⟩ =
      ((delimited close backslash cs).text,
        ⟨lineAfter line (delimited close backslash cs).raw,
          (delimited close backslash cs).rest⟩) := by
  fun_induction delimited close backslash cs generalizing line with
  | case1 => rw [delimitedFrom]; rfl
  | case2 c h =>
    rw [delimitedFrom, advance_cons]
    by_cases hc : c = close
    · rw [if_pos hc]
      rfl
    · rw [if_neg hc, if_pos (h.resolve_left hc)]
      exact delimitedFrom_nil ..
  | case3 c h =>
    rw [not_or] at h
    rw [delimitedFrom, advance_cons, if_neg h.1, if_neg h.2, delimitedFrom_nil]
  | case4 cs ih =>
    rw [delimitedFrom, advance_cons, if_pos rfl, current?_cons, if_pos rfl, advance_cons,
      lineAfter_lineAfter, ih, lineAfter_lineAfter]
    rfl
  | case5 d cs hd =>
    rw [delimitedFrom, advance_cons, if_pos rfl, current?_cons,
      if_neg fun h => hd (Option.some.inj h)]
  | case6 c d cs hc hb ih =>
    rw [delimitedFrom, advance_cons, if_neg hc, if_pos hb, current?_cons]
    dsimp only
    rw [advance_cons, lineAfter_lineAfter, ih, lineAfter_lineAfter]
    rfl
  | case7 c d cs hc hb ih =>
    rw [delimitedFrom, advance_cons, if_neg hc, if_neg hb, ih, lineAfter_lineAfter]
    rfl

theorem readDelimited_eq (close : Char) (backslash : Bool) (line : Nat) (mark : Char)
    (cs : List Char) :
    readDelimited close backslash ⟨line, mark :: cs⟩ =
      ((delimited close backslash cs).text,
        ⟨lineAfter line (mark :: (delimited close backslash cs).raw),
          (delimited close backslash cs).rest⟩) := by
  rw [readDelimited, advance_cons, delimitedFrom_eq, lineAfter_lineAfter]
  rfl

theorem readDigits_eq (sign : List Char) (line : Nat) (cs : List Char) :
    readDigits sign ⟨line, cs⟩ =
      (sign ++ (number cs).1, ⟨lineAfter line (number cs).1, (number cs).2⟩) := by
  rw [readDigits, takeWhile_eq, number]
  dsimp only
  split
  · rename_i hpoint
    obtain ⟨rest, hrest⟩ := exists_of_current? hpoint
    rw [hrest, advance_cons, lineAfter_lineAfter, takeWhile_eq]
    dsimp only
    rw [lineAfter_lineAfter, List.append_assoc]
    rfl
  · rename_i hpoint
    split
    · rename_i rest hrest
      rw [hrest] at hpoint
      exact absurd rfl hpoint
    · rfl

theorem readNumber_digit {c : Char} (hc : c.isDigit = true) (line : Nat) (cs : List Char) :
    readNumber ⟨line, c :: cs⟩ =
      ((number (c :: cs)).1, ⟨lineAfter line (number (c :: cs)).1, (number (c :: cs)).2⟩) := by
  have hminus : c ≠ '-' := by
    rintro rfl
    exact absurd hc (by decide)
  rw [readNumber, current?_cons, if_neg fun h => hminus (Option.some.inj h)]
  exact readDigits_eq [] line (c :: cs)

theorem readNumber_minus (line : Nat) (cs : List Char) :
    readNumber ⟨line, '-' :: cs⟩ =
      ('-' :: (number cs).1, ⟨lineAfter line ('-' :: (number cs).1), (number cs).2⟩) := by
  rw [readNumber, current?_cons, if_pos rfl, advance_cons, readDigits_eq, lineAfter_lineAfter]
  rfl

/-! ## One round -/

/-- A reader behind a piece, and what it hands on. -/
def handOn (line : Nat) (l : Lexeme × List Char) : Option Token × LineReader :=
  (l.1.token, ⟨lineAfter line l.1.raw, l.2⟩)

theorem isWordPart_of_isWordStart {c : Char} (h : isWordStart c = true) : isWordPart c = true := by
  simp only [isWordStart, isWordPart, Text.isAlnum, Bool.or_eq_true] at h ⊢
  tauto

section
variable (b : Bool) (line : Nat) (cs : List Char)

theorem round_minus : round b '-' ⟨line, '-' :: cs⟩ = handOn line (minusLexeme cs) := by
  unfold round minusLexeme
  cases cs with
  | nil =>
    rw [if_neg (by simp [peek?]), if_neg (by simp [peek?])]
    exact congrArg (Prod.mk none) (advance_cons line '-' [])
  | cons d rest =>
    dsimp only
    by_cases hd : d = '-'
    · subst hd
      rw [if_pos ⟨rfl, rfl⟩, if_pos rfl, takeWhile_eq]
      rfl
    · rw [if_neg fun h => hd (Option.some.inj h.2), if_neg hd]
      by_cases hdigit : d.isDigit = true
      · rw [if_pos ⟨rfl, hdigit⟩, if_pos hdigit, readNumber_minus]
        rfl
      · rw [if_neg fun h => hdigit h.2, if_neg hdigit]
        exact congrArg (Prod.mk none) (advance_cons line '-' (d :: rest))

theorem round_slash : round b '/' ⟨line, '/' :: cs⟩ = handOn line (slashLexeme cs) := by
  unfold round
  rw [if_neg (by simp), if_neg (by simp), if_neg (by decide), if_pos rfl, advance_cons]
  dsimp only
  unfold slashLexeme
  split
  · rename_i hstar
    obtain ⟨rest, rfl⟩ := exists_of_current? hstar
    rw [skipComment, advance_cons, lineAfter_lineAfter, commentFrom_eq, lineAfter_lineAfter]
    rfl
  · rename_i hstar
    split
    · exact absurd rfl hstar
    · rfl

theorem readWord_eq {c : Char} (hc : isWordPart c = true) :
    (some (readWord ⟨line, c :: cs⟩).1, (readWord ⟨line, c :: cs⟩).2) =
      handOn line (wordLexeme c cs) := by
  unfold readWord wordLexeme
  rw [takeWhile_eq, List.takeWhile_cons_of_pos hc, List.dropWhile_cons_of_pos hc]
  dsimp only
  generalize c :: cs.takeWhile isWordPart = word
  split
  · rename_i h
    obtain ⟨rest, hrest⟩ := exists_of_current? h.2
    rw [hrest, readDelimited_eq, lineAfter_lineAfter]
    simp [h.1, handOn, stringLiteral, spelled]
  · rename_i h
    split
    · rename_i rest hrest
      rw [hrest] at h ⊢
      rw [if_neg fun hword => h ⟨hword, rfl⟩]
      rfl
    · rfl

theorem round_bracket : round b '[' ⟨line, '[' :: cs⟩ = handOn line (bracketLexeme cs) := by
  unfold round
  rw [if_neg (by simp), if_neg (by simp), if_neg (by decide), if_neg (by decide)]
  rw [show punctuation? '[' = none from rfl]
  dsimp only
  rw [if_neg (by decide)]
  unfold bracketLexeme
  split
  · rename_i hclose
    obtain ⟨rest, rfl⟩ := List.head?_eq_some_iff.1 hclose.2
    rw [advance_cons, advance_cons, lineAfter_lineAfter]
    rfl
  · rename_i hclose
    rw [if_pos rfl, readDelimited_eq]
    split
    · exact absurd ⟨rfl, rfl⟩ hclose
    · rfl

/-- **One round** reads one piece, and nothing else. -/
theorem round_eq {c : Char} (hc : Text.isBlank c = false) :
    round b c ⟨line, c :: cs⟩ = handOn line (lexeme b c cs) := by
  unfold lexeme
  rw [if_neg (by simp [hc])]
  -- the pieces of these three depend on the character behind; the rest are told apart by `c` alone
  by_cases hminus : c = '-'
  · subst hminus
    exact round_minus b line cs
  by_cases hslash : c = '/'
  · subst hslash
    exact round_slash b line cs
  by_cases hbracket : c = '['
  · subst hbracket
    exact round_bracket b line cs
  unfold round
  rw [if_neg fun h => hminus h.1, if_neg fun h => hminus h.1, if_neg hminus]
  split
  · rename_i hhash
    subst hhash
    rw [takeWhile_eq]
    rfl
  cases punctuation? c with
  | some t => exact congrArg (Prod.mk _) (advance_cons line c cs)
  | none =>
    dsimp only
    rw [if_neg fun h : c = '[' ∧ _ => hbracket h.1]
    split
    · rw [readDelimited_eq]
      rfl
    split
    · rw [readDelimited_eq]
      rfl
    split
    · rename_i hdigit
      rw [readNumber_digit hdigit]
      rfl
    split
    · rename_i hword
      exact readWord_eq line cs (isWordPart_of_isWordStart hword)
    · exact congrArg (Prod.mk _) (advance_cons line c cs)

/-- The reader is behind a piece just if it went past its characters one by one. -/
theorem round_snd_eq_iterate {c : Char} (hc : Text.isBlank c = false) :
    (round b c ⟨line, c :: cs⟩).2 = advance^[(lexeme b c cs).1.raw.length] ⟨line, c :: cs⟩ := by
  rw [round_eq b line cs hc, iterate_advance, ← lexeme_raw_rest b c cs, List.take_left,
    List.drop_left]
  rfl

end

/-! ## Whole texts -/

section
variable {keep : Char → Bool} {b : Bool} {r : LineReader} {line : Nat} {c : Char} {cs : List Char}

theorem not_keep_of_takeWhile (h : (r.takeWhile keep).2 = ⟨line, c :: cs⟩) : keep c = false := by
  rw [takeWhile_eq keep r.line r.rest] at h
  have hrest : r.rest.dropWhile keep = c :: cs := congrArg LineReader.rest h
  have hhead := List.head?_dropWhile_not keep r.rest
  rw [hrest] at hhead
  exact hhead

/-- Behind white space and one round less text is left. -/
theorem length_round_lt {t : Option Token} {s : LineReader}
    (h : (r.takeWhile Text.isBlank).2 = ⟨line, c :: cs⟩)
    (hround : round b c ⟨line, c :: cs⟩ = (t, s)) : s.rest.length < r.rest.length := by
  rw [round_eq b line cs (not_keep_of_takeWhile h)] at hround
  obtain ⟨-, rfl⟩ := Prod.mk.inj hround
  rw [takeWhile_eq Text.isBlank r.line r.rest] at h
  have hrest : r.rest.dropWhile Text.isBlank = c :: cs := congrArg LineReader.rest h
  refine Nat.lt_of_lt_of_le (length_rest_lt b c cs) ?_
  rw [← hrest]
  exact (List.dropWhile_suffix _).length_le

end

/-- **The next token**, behind white space, comments and stray characters, and the line that it
begins on. -/
def next (b : Bool) (r : LineReader) : Placed × LineReader :=
  match _ : (r.takeWhile Text.isBlank).2 with
  | ⟨line, []⟩ => (⟨.endOfText, line⟩, ⟨line, []⟩)
  | ⟨line, c :: cs⟩ =>
    match _ : round b c ⟨line, c :: cs⟩ with
    | (some t, s) => (⟨t, line⟩, s)
    | (none, s) => next b s
termination_by r.rest.length
decreasing_by
  rename_i h hround
  exact length_round_lt h hround

section
variable {b : Bool}

/-- White space is a piece that spells nothing. -/
theorem placeTokens_takeWhile (r : LineReader) :
    placeTokens (r.takeWhile Text.isBlank).2.line (lexemes b (r.takeWhile Text.isBlank).2.rest) =
      placeTokens r.line (lexemes b r.rest) := by
  obtain ⟨line, cs⟩ := r
  rw [takeWhile_eq]
  cases cs with
  | nil => rfl
  | cons c cs =>
    by_cases hc : Text.isBlank c = true
    · rw [List.takeWhile_cons_of_pos hc, List.dropWhile_cons_of_pos hc, lexemes.eq_2 b c, lexeme,
        if_pos hc]
      rfl
    · rw [List.takeWhile_cons_of_neg hc, List.dropWhile_cons_of_neg hc]
      rfl

/-- **The next token** is the first one of the pieces ahead, and those behind it stay. -/
theorem next_eq (r : LineReader) :
    placeTokens r.line (lexemes b r.rest) =
      (next b r).1 :: if (next b r).1.token = .endOfText then []
        else placeTokens (next b r).2.line (lexemes b (next b r).2.rest) := by
  fun_induction next b r with
  | case1 r line h =>
    rw [← placeTokens_takeWhile, h, lexemes]
    rfl
  | case2 r line c cs h t s hround =>
    rw [round_eq b line cs (not_keep_of_takeWhile h)] at hround
    obtain ⟨ht, rfl⟩ := Prod.mk.inj hround
    have hend : t ≠ .endOfText := by
      rintro rfl
      exact beginsWith_lexeme ht
    rw [← placeTokens_takeWhile, h, if_neg hend, lexemes.eq_2, placeTokens, ht]
  | case3 r line c cs h s hround ih =>
    rw [round_eq b line cs (not_keep_of_takeWhile h)] at hround
    obtain ⟨ht, rfl⟩ := Prod.mk.inj hround
    rw [← ih, ← placeTokens_takeWhile, h, lexemes.eq_2, placeTokens, ht]

theorem length_next_lt {r : LineReader} (h : (next b r).1.token ≠ .endOfText) :
    (next b r).2.rest.length < r.rest.length := by
  fun_induction next b r with
  | case1 => exact absurd rfl h
  | case2 r line c cs hskip t s hround => exact length_round_lt hskip hround
  | case3 r line c cs hskip s hround ih => exact Nat.lt_trans (ih h) (length_round_lt hskip hround)

end

/-- **All tokens** from where the reader is, up to the end of the text. -/
def readAll (b : Bool) (r : LineReader) : List Placed :=
  if _ : (next b r).1.token = .endOfText then [(next b r).1]
  else (next b r).1 :: readAll b (next b r).2
termination_by r.rest.length
decreasing_by exact length_next_lt ‹_›

theorem readAll_eq_placeTokens (b : Bool) (r : LineReader) :
    readAll b r = placeTokens r.line (lexemes b r.rest) := by
  fun_induction readAll b r with
  | case1 r hend => rw [next_eq, if_pos hend]
  | case2 r hend ih => rw [next_eq r, if_neg hend, ih]

/-- **One character after another**, a reader that counts lines gets the tokens of the text, each
on its line. -/
theorem readAll_eq (b : Bool) (text : String) : readAll b ⟨1, text.toList⟩ = tokens b text :=
  readAll_eq_placeTokens b ⟨1, text.toList⟩

end LineReader

end DdlGraph.Sql
