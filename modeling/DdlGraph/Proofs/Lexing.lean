import DdlGraph.Sql.Token.Lexer

/-!
# Reading a text piece by piece

A part of a text spells the same tokens wherever it stands, as long as its last piece does not run
on into what follows. `Closed` parts never do; `Reads` parts do not if a mark follows (`Stops`).

* `Opens`: what the first character of a piece decides;
* `lexeme_append`: a piece that ends before the text does is the same in a longer text;
* `reads_of_last`, `closed_of_last`: so a text spells its tokens if its last piece is right;
* `reads_word`, `reads_number`, `closed_comment`: words, numbers and comments.
-/

namespace DdlGraph.Sql

/-- The tokens of a text, without lines and end. -/
def tokensOf (b : Bool) (cs : List Char) : List Token :=
  (lexemes b cs).filterMap Lexeme.token

theorem tokensOf_nil (b : Bool) : tokensOf b [] = [] := by
  unfold tokensOf
  rw [lexemes]
  rfl

theorem tokensOf_cons (b : Bool) (c : Char) (cs : List Char) :
    tokensOf b (c :: cs) =
      (lexeme b c cs).1.token.toList ++ tokensOf b (lexeme b c cs).2 := by
  unfold tokensOf
  rw [lexemes, List.filterMap_cons]
  cases (lexeme b c cs).1.token <;> rfl

theorem placeTokens_tokens (line : Nat) (ls : List Lexeme) :
    (placeTokens line ls).map (·.token) = ls.filterMap Lexeme.token ++ [.endOfText] := by
  induction ls generalizing line with
  | nil => rfl
  | cons l ls ih =>
    unfold placeTokens
    rw [List.filterMap_cons]
    cases l.token with
    | none => exact ih _
    | some t => exact congrArg (t :: ·) (ih _)

theorem tokens_map_token (b : Bool) (text : String) :
    (tokens b text).map (·.token) = tokensOf b text.toList ++ [.endOfText] :=
  placeTokens_tokens 1 _

/-! ## More text -/

theorem takeWhile_stop {p : Char → Bool} {cs : List Char} (h : cs.dropWhile p ≠ [])
    (more : List Char) : (cs ++ more).takeWhile p = cs.takeWhile p ∧
      (cs ++ more).dropWhile p = cs.dropWhile p ++ more := by
  induction cs with
  | nil => exact absurd rfl h
  | cons c cs ih =>
    rw [List.cons_append, List.takeWhile_cons, List.dropWhile_cons, List.takeWhile_cons,
      List.dropWhile_cons]
    rw [List.dropWhile_cons] at h
    cases hc : p c with
    | true =>
      rw [hc] at h
      obtain ⟨ht, hd⟩ := ih h
      exact ⟨congrArg (c :: ·) ht, hd⟩
    | false => exact ⟨rfl, rfl⟩

theorem delimited_append {close : Char} {b : Bool} {cs : List Char}
    (h : (delimited close b cs).rest ≠ []) (more : List Char) :
    delimited close b (cs ++ more) =
      ⟨(delimited close b cs).text, (delimited close b cs).raw,
        (delimited close b cs).rest ++ more⟩ := by
  fun_induction delimited close b cs with
  | case1 | case2 | case3 => exact absurd rfl h
  | case4 cs ih =>
    rw [List.cons_append, List.cons_append, delimited, if_pos rfl, if_pos rfl, ih h]
    rfl
  | case5 d cs hd =>
    rw [List.cons_append, List.cons_append, delimited, if_pos rfl, if_neg hd]
  | case6 c d cs hc hb ih =>
    rw [List.cons_append, List.cons_append, delimited, if_neg hc, if_pos hb, ih h]
    rfl
  | case7 c d cs hc hb ih =>
    rw [List.cons_append, List.cons_append, delimited, if_neg hc, if_neg hb]
    rw [← List.cons_append, ih h]
    rfl

theorem blockComment_append {star : Bool} {cs : List Char} (h : (blockComment star cs).2 ≠ [])
    (more : List Char) : blockComment star (cs ++ more) =
      ((blockComment star cs).1, (blockComment star cs).2 ++ more) := by
  induction cs generalizing star with
  | nil => exact absurd rfl h
  | cons c cs ih =>
    unfold blockComment at h ⊢
    split at h
    · rename_i hc
      rw [List.cons_append]
      dsimp only
      rw [if_pos hc, if_pos hc]
    · rename_i hc
      rw [List.cons_append]
      dsimp only
      rw [if_neg hc, if_neg hc, ih h]

theorem number_of_point {cs rest : List Char} (h : cs.dropWhile Char.isDigit = '.' :: rest) :
    number cs = (cs.takeWhile Char.isDigit ++ '.' :: rest.takeWhile Char.isDigit,
      rest.dropWhile Char.isDigit) := by
  unfold number
  split
  · rename_i hr
    rw [h, List.cons.injEq] at hr
    rw [hr.2]
  · rename_i hr
    exact absurd h (hr rest)

theorem number_of_no_point {cs : List Char}
    (h : ∀ rest, cs.dropWhile Char.isDigit ≠ '.' :: rest) :
    number cs = (cs.takeWhile Char.isDigit, cs.dropWhile Char.isDigit) := by
  unfold number
  split
  · rename_i hr
    exact absurd hr (h _)
  · rfl

theorem number_append {cs : List Char} (h : (number cs).2 ≠ []) (more : List Char) :
    number (cs ++ more) = ((number cs).1, (number cs).2 ++ more) := by
  have hne : cs.dropWhile Char.isDigit ≠ [] := by
    intro he
    apply h
    rw [number_of_no_point (by simp [he])]
    exact he
  obtain ⟨ht, hd⟩ := takeWhile_stop hne more
  cases hc : cs.dropWhile Char.isDigit with
  | nil => exact absurd hc hne
  | cons c rest =>
    by_cases hp : c = '.'
    · subst hp
      rw [number_of_point hc] at h ⊢
      rw [hc, List.cons_append] at hd
      obtain ⟨ht', hd'⟩ := takeWhile_stop h more
      rw [number_of_point hd, ht, ht', hd']
    · have hn : ∀ rest' more', c :: rest' ≠ '.' :: more' := by
        rintro rest' more' he
        exact hp (List.cons.inj he).1
      have hcs : ∀ more', cs.dropWhile Char.isDigit ≠ '.' :: more' := by
        rw [hc]
        exact hn rest
      have happ : ∀ more', (cs ++ more).dropWhile Char.isDigit ≠ '.' :: more' := by
        rw [hd, hc]
        exact hn (rest ++ more)
      rw [number_of_no_point hcs, number_of_no_point happ, ht, hd]

/-! ## Pieces -/

theorem minusLexeme_append {cs : List Char} (h : (minusLexeme cs).2 ≠ []) (more : List Char) :
    minusLexeme (cs ++ more) = ((minusLexeme cs).1, (minusLexeme cs).2 ++ more) := by
  cases cs with
  | nil => exact absurd rfl h
  | cons d rest =>
    unfold minusLexeme at h ⊢
    rw [List.cons_append]
    dsimp only at h ⊢
    split at h
    · rename_i hd
      obtain ⟨ht, hdrop⟩ := takeWhile_stop h more
      rw [List.cons_append] at ht hdrop
      rw [if_pos hd, if_pos hd, ht, hdrop]
      rfl
    · rename_i hd
      split at h
      · rename_i hdig
        have hn := number_append h more
        rw [List.cons_append] at hn
        rw [if_neg hd, if_neg hd, if_pos hdig, if_pos hdig, hn]
        rfl
      · rename_i hdig
        rw [if_neg hd, if_neg hd, if_neg hdig, if_neg hdig]
        rfl

theorem slashLexeme_star (rest : List Char) : slashLexeme ('*' :: rest) =
    skipped ('/' :: '*' :: (blockComment false rest).1) (blockComment false rest).2 :=
  rfl

theorem slashLexeme_append {cs : List Char} (h : (slashLexeme cs).2 ≠ []) (more : List Char) :
    slashLexeme (cs ++ more) = ((slashLexeme cs).1, (slashLexeme cs).2 ++ more) := by
  cases cs with
  | nil => exact absurd rfl h
  | cons c rest =>
    by_cases hc : c = '*'
    · subst hc
      rw [slashLexeme_star] at h ⊢
      rw [List.cons_append, slashLexeme_star, blockComment_append h more]
      rfl
    · have hslash : ∀ cs, slashLexeme (c :: cs) = skipped ['/'] (c :: cs) := by
        intro cs
        unfold slashLexeme
        split
        · rename_i he
          exact absurd (List.cons.inj he).1 hc
        · rfl
      rw [List.cons_append, hslash, hslash]
      rfl

theorem quotedName_append {mark close : Char} {cs : List Char}
    (h : (quotedName mark close cs).2 ≠ []) (more : List Char) :
    quotedName mark close (cs ++ more) =
      ((quotedName mark close cs).1, (quotedName mark close cs).2 ++ more) := by
  unfold quotedName
  rw [delimited_append h more]
  rfl

theorem stringLiteral_append {mark cs : List Char} {b : Bool}
    (h : (stringLiteral mark b cs).2 ≠ []) (more : List Char) :
    stringLiteral mark b (cs ++ more) =
      ((stringLiteral mark b cs).1, (stringLiteral mark b cs).2 ++ more) := by
  unfold stringLiteral
  rw [delimited_append h more]
  rfl

theorem bracketLexeme_append {cs : List Char} (h : (bracketLexeme cs).2 ≠ [])
    (more : List Char) :
    bracketLexeme (cs ++ more) = ((bracketLexeme cs).1, (bracketLexeme cs).2 ++ more) := by
  cases cs with
  | nil => exact absurd rfl h
  | cons c rest =>
    by_cases hc : c = ']'
    · subst hc
      rfl
    · have hbracket : ∀ cs, bracketLexeme (c :: cs) = quotedName '[' ']' (c :: cs) := by
        intro cs
        unfold bracketLexeme
        split
        · rename_i he
          exact absurd (List.cons.inj he).1 hc
        · rfl
      rw [hbracket] at h
      rw [List.cons_append, hbracket, hbracket, ← List.cons_append]
      exact quotedName_append h more

theorem wordLexeme_of_apostrophe {c : Char} {cs rest : List Char}
    (h : cs.dropWhile isWordPart = '\'' :: rest) : wordLexeme c cs =
      if c :: cs.takeWhile isWordPart = ['e'] ∨ c :: cs.takeWhile isWordPart = ['E'] then
        stringLiteral (c :: cs.takeWhile isWordPart ++ ['\'']) true rest
      else spelled (.ofWord (.ofList (c :: cs.takeWhile isWordPart)))
        (c :: cs.takeWhile isWordPart) ('\'' :: rest) := by
  unfold wordLexeme
  split
  · rename_i hr
    rw [h, List.cons.injEq] at hr
    rw [hr.2]
  · rename_i hr
    exact absurd h (hr rest)

theorem wordLexeme_of_no_apostrophe {c : Char} {cs : List Char}
    (h : ∀ rest, cs.dropWhile isWordPart ≠ '\'' :: rest) : wordLexeme c cs =
      spelled (.ofWord (.ofList (c :: cs.takeWhile isWordPart))) (c :: cs.takeWhile isWordPart)
        (cs.dropWhile isWordPart) := by
  unfold wordLexeme
  split
  · rename_i hr
    exact absurd hr (h _)
  · rfl

theorem wordLexeme_append {c : Char} {cs : List Char} (h : (wordLexeme c cs).2 ≠ [])
    (more : List Char) :
    wordLexeme c (cs ++ more) = ((wordLexeme c cs).1, (wordLexeme c cs).2 ++ more) := by
  have hne : cs.dropWhile isWordPart ≠ [] := by
    intro he
    apply h
    rw [wordLexeme_of_no_apostrophe (by simp [he])]
    exact he
  obtain ⟨ht, hd⟩ := takeWhile_stop hne more
  cases hc : cs.dropWhile isWordPart with
  | nil => exact absurd hc hne
  | cons d ds =>
    by_cases hq : d = '\''
    · subst hq
      rw [hc, List.cons_append] at hd
      rw [wordLexeme_of_apostrophe hc] at h ⊢
      rw [wordLexeme_of_apostrophe hd, ht]
      split
      · rename_i he
        rw [if_pos he] at h
        exact stringLiteral_append h more
      · rfl
    · have hn : ∀ ds' rest, d :: ds' ≠ '\'' :: rest :=
        fun ds' rest he => hq (List.cons.inj he).1
      have hcs : ∀ rest, cs.dropWhile isWordPart ≠ '\'' :: rest := by
        rw [hc]
        exact hn ds
      have happ : ∀ rest, (cs ++ more).dropWhile isWordPart ≠ '\'' :: rest := by
        rw [hd, hc]
        exact hn (ds ++ more)
      rw [wordLexeme_of_no_apostrophe hcs, wordLexeme_of_no_apostrophe happ, ht, hd]
      rfl

theorem skipped_append {p : Char → Bool} {c : Char} {cs : List Char} (h : cs.dropWhile p ≠ [])
    (more : List Char) :
    skipped (c :: (cs ++ more).takeWhile p) ((cs ++ more).dropWhile p) =
      ((skipped (c :: cs.takeWhile p) (cs.dropWhile p)).1,
        (skipped (c :: cs.takeWhile p) (cs.dropWhile p)).2 ++ more) := by
  obtain ⟨ht, hd⟩ := takeWhile_stop h more
  rw [ht, hd]
  rfl

/-- The piece of a number. -/
def numberLexeme (cs : List Char) : Lexeme × List Char :=
  spelled (.num (.ofList (number cs).1)) (number cs).1 (number cs).2

theorem lexeme_blank {b : Bool} {c : Char} (h : Text.isBlank c = true) (cs : List Char) :
    lexeme b c cs = skipped (c :: cs.takeWhile Text.isBlank) (cs.dropWhile Text.isBlank) := by
  unfold lexeme
  rw [if_pos h]

theorem punctuation?_mem {c : Char} {t : Token} (h : punctuation? c = some t) :
    t ∈ [Token.lparen, .rparen, .comma, .semicolon, .dot] := by
  unfold punctuation? at h
  split at h <;> first
    | (obtain rfl := Option.some.inj h; decide)
    | cases h

/-- **What the first character decides**: how a piece goes on, whatever the text behind it. -/
inductive Opens (c : Char) : Prop
  | skip (p : Char → Bool)
      (h : ∀ b cs, lexeme b c cs = skipped (c :: cs.takeWhile p) (cs.dropWhile p))
  | minus (h : ∀ b cs, lexeme b c cs = minusLexeme cs)
  | slash (h : ∀ b cs, lexeme b c cs = slashLexeme cs)
  | mark (t : Token) (ht : punctuation? c = some t) (h : ∀ b cs, lexeme b c cs = spelled t [c] cs)
  | quote (h : ∀ b cs, lexeme b c cs = quotedName c c cs)
  | bracket (h : ∀ b cs, lexeme b c cs = bracketLexeme cs)
  | string (h : ∀ b cs, lexeme b c cs = stringLiteral [c] b cs)
  | number (h : ∀ b cs, lexeme b c cs = numberLexeme (c :: cs))
  | word (h : ∀ b cs, lexeme b c cs = wordLexeme c cs)
  | stray (h : ∀ b cs, lexeme b c cs = skipped [c] cs)

theorem opens (c : Char) : Opens c := by
  by_cases hblank : Text.isBlank c = true
  · exact .skip Text.isBlank fun _ => lexeme_blank hblank
  by_cases hminus : c = '-'
  · exact .minus fun _ _ => by simp only [lexeme, if_neg hblank, if_pos hminus]
  by_cases hhash : c = '#'
  · exact .skip (· ≠ '\n') fun _ _ => by
      simp only [lexeme, if_neg hblank, if_neg hminus, if_pos hhash]
  by_cases hslash : c = '/'
  · exact .slash fun _ _ => by
      simp only [lexeme, if_neg hblank, if_neg hminus, if_neg hhash, if_pos hslash]
  cases hp : punctuation? c with
  | some t =>
    exact .mark t hp fun _ _ => by
      simp only [lexeme, if_neg hblank, if_neg hminus, if_neg hhash, if_neg hslash, hp]
  | none =>
    have hopen : ∀ b cs, lexeme b c cs =
        if c = '"' ∨ c = '`' then quotedName c c cs
        else if c = '[' then bracketLexeme cs
        else if c = '\'' then stringLiteral [c] b cs
        else if c.isDigit then numberLexeme (c :: cs)
        else if isWordStart c then wordLexeme c cs
        else skipped [c] cs := fun b cs => by
      simp only [lexeme, if_neg hblank, if_neg hminus, if_neg hhash, if_neg hslash, hp]
      rfl
    by_cases hquote : c = '"' ∨ c = '`'
    · exact .quote fun b cs => by rw [hopen, if_pos hquote]
    by_cases hbracket : c = '['
    · exact .bracket fun b cs => by rw [hopen, if_neg hquote, if_pos hbracket]
    by_cases hstring : c = '\''
    · exact .string fun b cs => by rw [hopen, if_neg hquote, if_neg hbracket, if_pos hstring]
    by_cases hdigit : c.isDigit = true
    · exact .number fun b cs => by
        rw [hopen, if_neg hquote, if_neg hbracket, if_neg hstring, if_pos hdigit]
    by_cases hword : isWordStart c = true
    · exact .word fun b cs => by
        rw [hopen, if_neg hquote, if_neg hbracket, if_neg hstring, if_neg hdigit, if_pos hword]
    · exact .stray fun b cs => by
        rw [hopen, if_neg hquote, if_neg hbracket, if_neg hstring, if_neg hdigit, if_neg hword]

/-- **A piece that ends before the text does** is the same with more text behind. -/
theorem lexeme_append {b : Bool} {c : Char} {cs : List Char} (h : (lexeme b c cs).2 ≠ [])
    (more : List Char) :
    lexeme b c (cs ++ more) = ((lexeme b c cs).1, (lexeme b c cs).2 ++ more) := by
  cases opens c with
  | skip p hc =>
    rw [hc] at h
    rw [hc, hc]
    exact skipped_append h more
  | minus hc =>
    rw [hc] at h
    rw [hc, hc]
    exact minusLexeme_append h more
  | slash hc =>
    rw [hc] at h
    rw [hc, hc]
    exact slashLexeme_append h more
  | mark t ht hc =>
    rw [hc, hc]
    rfl
  | quote hc =>
    rw [hc] at h
    rw [hc, hc]
    exact quotedName_append h more
  | bracket hc =>
    rw [hc] at h
    rw [hc, hc]
    exact bracketLexeme_append h more
  | string hc =>
    rw [hc] at h
    rw [hc, hc]
    exact stringLiteral_append h more
  | number hc =>
    rw [hc] at h
    rw [hc, hc]
    have hn := number_append h more
    rw [List.cons_append] at hn
    unfold numberLexeme
    rw [hn]
    rfl
  | word hc =>
    rw [hc] at h
    rw [hc, hc]
    exact wordLexeme_append h more
  | stray hc =>
    rw [hc, hc]
    rfl

/-! ## Parts of a text -/

/-- The marks that stand behind names, words and literals. -/
def stopMarks : List Char :=
  [' ', '\n', ',', '(', ')', ';', '[']

/-- What follows is nothing or begins with a mark. -/
def Stops (rest : List Char) : Prop :=
  ∀ c ∈ rest.head?, c ∈ stopMarks

instance (rest : List Char) : Decidable (Stops rest) :=
  decidable_of_iff (rest.head?.all (stopMarks.contains ·) = true) <| by
    unfold Stops
    cases rest <;> simp

/-- **Closed part**: it spells `ts`, whatever follows. -/
def Closed (b : Bool) (cs : List Char) (ts : List Token) : Prop :=
  ∀ rest, tokensOf b (cs ++ rest) = ts ++ tokensOf b rest

/-- **Part that a mark ends**: it spells `ts` if a mark follows. -/
def Reads (b : Bool) (cs : List Char) (ts : List Token) : Prop :=
  ∀ rest, Stops rest → tokensOf b (cs ++ rest) = ts ++ tokensOf b rest

section
variable {b : Bool} {xs ys : List Char} {ts us : List Token}

theorem Stops.append (h : Stops xs) (hne : xs ≠ []) (rest : List Char) : Stops (xs ++ rest) := by
  cases xs with
  | nil => exact absurd rfl hne
  | cons c cs => exact h

theorem Closed.reads (h : Closed b xs ts) : Reads b xs ts :=
  fun rest _ => h rest

theorem Closed.nil : Closed b [] [] :=
  fun _ => rfl

theorem Closed.append (h : Closed b xs ts) (h' : Closed b ys us) :
    Closed b (xs ++ ys) (ts ++ us) := by
  intro rest
  rw [List.append_assoc, h, h', List.append_assoc]

theorem Closed.append_reads (h : Closed b xs ts) (h' : Reads b ys us) :
    Reads b (xs ++ ys) (ts ++ us) := by
  intro rest hr
  rw [List.append_assoc, h, h' rest hr, List.append_assoc]

theorem Reads.append_closed (h : Reads b xs ts) (h' : Closed b ys us) (hs : Stops ys)
    (hne : ys ≠ []) : Closed b (xs ++ ys) (ts ++ us) := by
  intro rest
  rw [List.append_assoc, h _ (hs.append hne rest), h', List.append_assoc]

theorem Reads.append (h : Reads b xs ts) (h' : Reads b ys us) (hs : Stops ys) :
    Reads b (xs ++ ys) (ts ++ us) := by
  intro rest hr
  have hstops : Stops (ys ++ rest) := by
    cases ys with
    | nil => exact hr
    | cons c cs => exact hs
  rw [List.append_assoc, h _ hstops, h' rest hr, List.append_assoc]

end

/-- A text spells its tokens before `more` if its last piece does. -/
theorem tokensOf_append {b : Bool} {cs more : List Char} {l : Lexeme}
    (hl : (lexemes b cs).getLast? = some l)
    (h : ∀ c cs', lexeme b c cs' = (l, []) →
      tokensOf b (c :: (cs' ++ more)) = l.token.toList ++ tokensOf b more) :
    tokensOf b (cs ++ more) = tokensOf b cs ++ tokensOf b more := by
  fun_induction lexemes b cs with
  | case1 => cases hl
  | case2 c cs ih =>
    by_cases hr : (lexeme b c cs).2 = []
    · rw [hr, lexemes] at hl
      obtain rfl := Option.some.inj hl
      rw [List.cons_append, tokensOf_cons b c cs, hr, tokensOf_nil, List.append_nil]
      exact h c cs (Prod.ext rfl hr)
    · rw [List.cons_append, tokensOf_cons b c (cs ++ more), lexeme_append hr, tokensOf_cons,
        List.append_assoc, ih ?_]
      cases hcs : lexemes b (lexeme b c cs).2 with
      | nil =>
        have hflat := flatMap_raw_lexemes b (lexeme b c cs).2
        rw [hcs] at hflat
        exact absurd hflat.symm hr
      | cons m ms =>
        rw [hcs, List.getLast?_cons_cons] at hl
        exact hl

/-! ## Marks and blanks -/

theorem lexeme_mark {b : Bool} {c : Char} {t : Token} (h : punctuation? c = some t)
    (cs : List Char) : lexeme b c cs = spelled t [c] cs := by
  unfold punctuation? at h
  split at h <;> first
    | (obtain rfl := Option.some.inj h; rfl)
    | cases h

theorem tokensOf_dropBlanks (b : Bool) (cs : List Char) :
    tokensOf b (cs.dropWhile Text.isBlank) = tokensOf b cs := by
  cases cs with
  | nil => rfl
  | cons c cs =>
    rw [List.dropWhile_cons]
    split
    · rename_i h
      rw [tokensOf_cons, lexeme_blank h]
      rfl
    · rfl

theorem closed_blank {c : Char} (h : Text.isBlank c = true) (b : Bool) : Closed b [c] [] := by
  intro rest
  rw [List.singleton_append, tokensOf_cons, lexeme_blank h]
  exact tokensOf_dropBlanks b rest

theorem closed_blanks {cs : List Char} (h : ∀ c ∈ cs, Text.isBlank c = true) (b : Bool) :
    Closed b cs [] := by
  induction cs with
  | nil => exact .nil
  | cons c cs ih =>
    exact (closed_blank (h c (.head _)) b).append (ih fun d hd => h d (.tail _ hd))

theorem closed_mark {c : Char} {t : Token} (h : punctuation? c = some t) (b : Bool) :
    Closed b [c] [t] := by
  intro rest
  rw [List.singleton_append, tokensOf_cons, lexeme_mark h]
  rfl

theorem closed_arraySuffix (b : Bool) : Closed b ['[', ']'] [.arraySuffix] := by
  intro rest
  have h : lexeme b '[' (']' :: rest) = spelled .arraySuffix ['[', ']'] rest := rfl
  rw [List.cons_append, List.singleton_append, tokensOf_cons, h]
  rfl

/-- A comment up to the end of its line. -/
theorem closed_comment {cs : List Char} (h : '\n' ∉ cs) (b : Bool) :
    Closed b ('-' :: '-' :: cs ++ ['\n']) [] := by
  intro rest
  have hmem : ∀ c ∈ '-' :: cs, (decide (c ≠ '\n')) = true := by
    intro c hc
    rw [decide_eq_true_eq]
    rintro rfl
    rcases List.mem_cons.1 hc with hc | hc
    · cases hc
    · exact h hc
  have hdrop : ('-' :: (cs ++ '\n' :: rest)).dropWhile (· ≠ '\n') = '\n' :: rest := by
    rw [← List.cons_append, List.dropWhile_append_of_pos hmem]
    rfl
  have hl : (lexeme b '-' ('-' :: (cs ++ '\n' :: rest))).2 = '\n' :: rest := hdrop
  have ht : (lexeme b '-' ('-' :: (cs ++ '\n' :: rest))).1.token = none := rfl
  rw [List.cons_append, List.cons_append, List.append_assoc, List.cons_append, List.cons_append,
    List.nil_append, tokensOf_cons, hl, ht]
  exact closed_blank (by decide) b rest

/-! ## The last piece -/

/-- A piece of blanks or a mark, which nothing goes on. -/
def Lexeme.isMark (l : Lexeme) : Bool :=
  l.raw.all Text.isBlank || match l.raw with
    | [c] => (punctuation? c).isSome
    | _ => false

/-- A word or a number, which a mark ends. -/
def Lexeme.isWord (l : Lexeme) : Bool :=
  match l.token with
  | some (.keyword _) | some (.ident _) | some (.num _) => true
  | _ => false

theorem mark_append {b : Bool} {c : Char} {cs : List Char} {l : Lexeme} (hm : l.isMark = true)
    (h : lexeme b c cs = (l, [])) (more : List Char) :
    tokensOf b (c :: (cs ++ more)) = l.token.toList ++ tokensOf b more := by
  have hraw : l.raw = c :: cs := by
    have hr := lexeme_raw_rest b c cs
    rw [h, List.append_nil] at hr
    exact hr
  unfold Lexeme.isMark at hm
  rw [hraw, Bool.or_eq_true] at hm
  rcases hm with hm | hm
  · have hblank := List.all_eq_true.1 hm
    have htoken : l.token = none := by
      rw [lexeme_blank (hblank c (.head _))] at h
      exact congrArg (·.1.token) h.symm
    rw [htoken]
    exact closed_blanks hblank b more
  · cases cs with
    | nil =>
      obtain ⟨t, ht⟩ := Option.isSome_iff_exists.1 hm
      have htoken : l.token = some t := by
        rw [lexeme_mark ht] at h
        exact congrArg (·.1.token) h.symm
      rw [htoken]
      exact closed_mark ht b more
    | cons d ds => cases hm

theorem closed_of_last {b : Bool} {cs : List Char} {l : Lexeme}
    (hl : (lexemes b cs).getLast? = some l) (hm : l.isMark = true) :
    Closed b cs (tokensOf b cs) :=
  fun more => tokensOf_append hl fun _ _ h => mark_append hm h more

theorem isWord_slashLexeme (cs : List Char) : (slashLexeme cs).1.isWord = false := by
  unfold slashLexeme
  split
  · rfl
  · rfl

theorem isWord_bracketLexeme (cs : List Char) : (bracketLexeme cs).1.isWord = false := by
  unfold bracketLexeme
  split
  · rfl
  · rfl

theorem isWord_minusLexeme {cs : List Char} (h : (minusLexeme cs).1.isWord = true) :
    ∃ d ds, cs = d :: ds ∧ d.isDigit = true ∧ ∀ more, minusLexeme (d :: more) =
      spelled (.num (.ofList ('-' :: (number (d :: more)).1))) ('-' :: (number (d :: more)).1)
        (number (d :: more)).2 := by
  unfold minusLexeme at h
  split at h
  · rename_i d ds
    split at h
    · cases h
    · rename_i hd
      split at h
      · rename_i hdig
        refine ⟨d, ds, rfl, hdig, fun more => ?_⟩
        unfold minusLexeme
        dsimp only
        rw [if_neg hd, if_pos hdig]
      · cases h
  · cases h

theorem isWord_mark {c : Char} {t : Token} (h : punctuation? c = some t) (raw rest : List Char) :
    (spelled t raw rest).1.isWord = false := by
  have hm := punctuation?_mem h
  simp only [List.mem_cons, List.not_mem_nil, or_false] at hm
  rcases hm with rfl | rfl | rfl | rfl | rfl <;> rfl

/-- The first character tells a word or a number, whatever comes after it and however strings are
escaped. -/
theorem isWord_cases {b : Bool} {c : Char} {cs : List Char}
    (h : (lexeme b c cs).1.isWord = true) :
    (∀ b more, lexeme b c more = wordLexeme c more) ∨
      (∀ b more, lexeme b c more = numberLexeme (c :: more)) ∨
        (minusLexeme cs).1.isWord = true ∧ ∀ b more, lexeme b c more = minusLexeme more := by
  cases opens c with
  | word hc => exact .inl hc
  | number hc => exact .inr (.inl hc)
  | minus hc =>
    rw [hc] at h
    exact .inr (.inr ⟨h, hc⟩)
  | skip p hc | stray hc | quote hc | string hc =>
    rw [hc] at h
    cases h
  | slash hc =>
    rw [hc, isWord_slashLexeme] at h
    cases h
  | bracket hc =>
    rw [hc, isWord_bracketLexeme] at h
    cases h
  | mark t ht hc =>
    rw [hc, isWord_mark ht] at h
    cases h

theorem takeWhile_eq_self {p : Char → Bool} {cs : List Char} (h : cs.dropWhile p = []) :
    cs.takeWhile p = cs := by
  have htd := List.takeWhile_append_dropWhile (p := p) (l := cs)
  rw [h, List.append_nil] at htd
  exact htd

theorem takeWhile_all {p : Char → Bool} {cs more : List Char} (h : cs.dropWhile p = [])
    (hm : ∀ c ∈ more.head?, p c = false) :
    (cs ++ more).takeWhile p = cs ∧ (cs ++ more).dropWhile p = more := by
  have hall : ∀ c ∈ cs, p c = true := by
    intro c hc
    rw [← takeWhile_eq_self h] at hc
    exact List.all_eq_true.1 List.all_takeWhile c hc
  have hmore : more.takeWhile p = [] ∧ more.dropWhile p = more := by
    cases more with
    | nil => exact ⟨rfl, rfl⟩
    | cons c rest =>
      have hc := hm c rfl
      rw [List.takeWhile_cons, List.dropWhile_cons, hc]
      exact ⟨rfl, rfl⟩
  rw [List.takeWhile_append_of_pos hall, List.dropWhile_append_of_pos hall, hmore.1, hmore.2,
    List.append_nil]
  exact ⟨rfl, rfl⟩

theorem Stops.not_of {more : List Char} (h : Stops more) {p : Char → Bool}
    (hp : stopMarks.all (fun c => !p c) = true) : ∀ c ∈ more.head?, p c = false :=
  fun c hc => (Bool.not_eq_true' _).mp (List.all_eq_true.1 hp c (h c hc))

/-- A word that is the whole text has characters of words only. -/
theorem dropWhile_isWordPart {c : Char} {cs : List Char} {l : Lexeme} (hl : l.isWord = true)
    (h : wordLexeme c cs = (l, [])) : cs.dropWhile isWordPart = [] := by
  cases hc : cs.dropWhile isWordPart with
  | nil => rfl
  | cons d ds =>
    by_cases hq : d = '\''
    · subst hq
      rw [wordLexeme_of_apostrophe hc] at h
      split at h
      · obtain rfl := (Prod.mk.inj h).1
        cases hl
      · cases (Prod.mk.inj h).2
    · have hn : ∀ rest, cs.dropWhile isWordPart ≠ '\'' :: rest := by
        rw [hc]
        exact fun rest he => hq (List.cons.inj he).1
      rw [wordLexeme_of_no_apostrophe hn, hc] at h
      cases (Prod.mk.inj h).2

/-- What follows goes on no word, and is no string that an `E` in front of it could begin. -/
def EndsWord (rest : List Char) : Prop :=
  ∀ c ∈ rest.head?, isWordPart c = false ∧ c ≠ '\''

theorem Stops.endsWord {more : List Char} (h : Stops more) : EndsWord more := by
  intro c hc
  refine ⟨h.not_of (p := isWordPart) (by decide) c hc, ?_⟩
  rintro rfl
  exact absurd (h _ hc) (by decide)

/-- A word ends where nothing goes on it. -/
theorem wordLexeme_ends {c : Char} {cs more : List Char} {l : Lexeme} (hl : l.isWord = true)
    (h : wordLexeme c cs = (l, [])) (hs : EndsWord more) :
    wordLexeme c (cs ++ more) = (l, more) := by
  have hnil := dropWhile_isWordPart hl h
  obtain ⟨ht, hd⟩ := takeWhile_all hnil fun c hc => (hs c hc).1
  have hn : ∀ rest, more ≠ '\'' :: rest := by
    rintro rest rfl
    exact (hs '\'' rfl).2 rfl
  rw [wordLexeme_of_no_apostrophe (by simp [hnil])] at h
  rw [wordLexeme_of_no_apostrophe (by rw [hd]; exact hn), ht, hd]
  obtain rfl := (Prod.mk.inj h).1
  rw [takeWhile_eq_self hnil]
  rfl

/-- A mark ends a number. -/
theorem number_stops {cs more : List Char} (h : (number cs).2 = []) (hs : Stops more) :
    number (cs ++ more) = ((number cs).1, more) := by
  have hdigit : ∀ c ∈ more.head?, c.isDigit = false := hs.not_of (by decide)
  have hpoint : ∀ rest, more ≠ '.' :: rest := by
    rintro rest rfl
    exact absurd (hs '.' rfl) (by decide)
  cases hc : cs.dropWhile Char.isDigit with
  | nil =>
    obtain ⟨ht, hd⟩ := takeWhile_all hc hdigit
    rw [number_of_no_point (by rw [hd]; exact hpoint), number_of_no_point (by simp [hc]), ht, hd,
      takeWhile_eq_self hc]
  | cons d ds =>
    by_cases hp : d = '.'
    · subst hp
      rw [number_of_point hc] at h ⊢
      obtain ⟨ht, hd⟩ := takeWhile_stop (by rw [hc]; exact List.cons_ne_nil _ _) more
      obtain ⟨ht', hd'⟩ := takeWhile_all h hdigit
      rw [hc, List.cons_append] at hd
      rw [number_of_point hd, ht, ht', hd', takeWhile_eq_self h]
    · rw [number_of_no_point (by rw [hc]; exact fun rest he => hp (List.cons.inj he).1), hc] at h
      cases h

theorem word_append {b : Bool} {c : Char} {cs more : List Char} {l : Lexeme}
    (hl : l.isWord = true) (h : lexeme b c cs = (l, [])) (hs : Stops more) :
    tokensOf b (c :: (cs ++ more)) = l.token.toList ++ tokensOf b more := by
  have hw : (lexeme b c cs).1.isWord = true := by
    rw [h]
    exact hl
  have hmore : lexeme b c (cs ++ more) = (l, more) := by
    rcases isWord_cases hw with hword | hnumber | ⟨hm, hminus⟩
    · rw [hword] at h ⊢
      exact wordLexeme_ends hl h hs.endsWord
    · rw [hnumber] at h ⊢
      have hn : (number (c :: cs)).2 = [] := (Prod.mk.inj h).2
      have happ := number_stops hn hs
      rw [List.cons_append] at happ
      obtain rfl := (Prod.mk.inj h).1
      unfold numberLexeme
      rw [happ]
      rfl
    · obtain ⟨d, ds, rfl, -, hd⟩ := isWord_minusLexeme hm
      rw [hminus, hd] at h
      have hn : (number (d :: ds)).2 = [] := (Prod.mk.inj h).2
      have happ := number_stops hn hs
      obtain rfl := (Prod.mk.inj h).1
      rw [hminus, List.cons_append, hd, ← List.cons_append, happ]
      rfl
  rw [tokensOf_cons, hmore]

theorem reads_of_last {b : Bool} {cs : List Char} {l : Lexeme}
    (hl : (lexemes b cs).getLast? = some l) (hw : l.isWord = true) :
    Reads b cs (tokensOf b cs) :=
  fun _ hs => tokensOf_append hl fun _ _ h => word_append hw h hs

/-- The text spells `ts` however strings are escaped, and ends in a piece with `p`. -/
def spells (p : Lexeme → Bool) (text : String) (ts : List Token) : Bool :=
  [false, true].all fun b =>
    (lexemes b text.toList).getLast?.any p && tokensOf b text.toList = ts

theorem last_of_spells {p : Lexeme → Bool} {text : String} {ts : List Token}
    (h : spells p text ts = true) (b : Bool) :
    ∃ l, (lexemes b text.toList).getLast? = some l ∧ p l = true ∧
      tokensOf b text.toList = ts := by
  have hb := List.all_eq_true.1 h b (by cases b <;> simp)
  rw [Bool.and_eq_true, decide_eq_true_eq] at hb
  obtain ⟨l, hl, hp⟩ := (Option.any_eq_true _ _).1 hb.1
  exact ⟨l, hl, hp, hb.2⟩

theorem closed_literal {text : String} {ts : List Token}
    (h : spells Lexeme.isMark text ts = true) (b : Bool) : Closed b text.toList ts := by
  obtain ⟨l, hl, hm, rfl⟩ := last_of_spells h b
  exact closed_of_last hl hm

theorem reads_literal {text : String} {ts : List Token}
    (h : spells Lexeme.isWord text ts = true) (b : Bool) : Reads b text.toList ts := by
  obtain ⟨l, hl, hw, rfl⟩ := last_of_spells h b
  exact reads_of_last hl hw

/-! ## Fixed text -/

/-- The fixed parts of a script that end in a mark, and their tokens. -/
def fixedMarks : List (String × List Token) :=
  [(" ", []), ("    ", []), ("\n", []), ("(", [.lparen]), (" (", [.lparen]), (" (\n", [.lparen]),
   (")", [.rparen]), ("))", [.rparen, .rparen]), (") ", [.rparen]), (",", [.comma]),
   (", ", [.comma]), (",\n", [.comma]), (";\n", [.semicolon]), (");\n", [.rparen, .semicolon]),
   ("-- Generated by schemasync\n-- Dialect: postgresql\n", []),
   ("-- Generated by schemasync\n-- Dialect: mysql\n", []),
   ("-- Generated by schemasync\n-- Dialect: sqlite\n", []),
   ("-- Foreign Key Constraints\n", []),
   ("CREATE TYPE ", [.keyword .create, .keyword .type]),
   (" AS ENUM (", [.keyword .as, .keyword .enum, .lparen]),
   ("CREATE TABLE IF NOT EXISTS ",
     [.keyword .create, .keyword .table, .keyword .if, .keyword .not, .keyword .exists]),
   ("CREATE INDEX ", [.keyword .create, .keyword .index]),
   ("IF NOT EXISTS ", [.keyword .if, .keyword .not, .keyword .exists]), (" ON ", [.keyword .on]),
   ("ALTER TABLE ", [.keyword .alter, .keyword .table]),
   (" ADD CONSTRAINT ", [.keyword .add, .keyword .constraint]),
   ("FOREIGN KEY (", [.keyword .foreign, .keyword .key, .lparen]),
   ("REFERENCES ", [.keyword .references]), (" ON DELETE ", [.keyword .on, .keyword .delete]),
   (" ON UPDATE ", [.keyword .on, .keyword .update]),
   ("PRIMARY KEY (", [.keyword .primary, .keyword .key, .lparen]),
   ("DEFAULT ", [.keyword .default]), ("ENUM(", [.keyword .enum, .lparen]),
   ("TEXT CHECK (", [.ident "TEXT", .keyword .check, .lparen]), (" IN (", [.ident "IN", .lparen])]

/-- The fixed parts of a script that end in a word, and their tokens. -/
def fixedWords : List (String × List Token) :=
  [("NULL", [.keyword .null]), ("NOT NULL", [.keyword .not, .keyword .null]),
   ("UNIQUE", [.keyword .unique]), ("PRIMARY KEY", [.keyword .primary, .keyword .key]),
   ("AUTO_INCREMENT", [.keyword .increment]),
   ("PRIMARY KEY AUTOINCREMENT", [.keyword .primary, .keyword .key, .keyword .increment]),
   ("CASCADE", [.keyword .cascade]), ("RESTRICT", [.keyword .restrict]),
   ("SET NULL", [.ident "SET", .keyword .null]), ("SET DEFAULT", [.ident "SET", .keyword .default]),
   ("NO ACTION", [.ident "NO", .ident "ACTION"]),
   ("DOUBLE PRECISION", [.ident "DOUBLE", .ident "PRECISION"])]

theorem spells_fixed : (∀ part ∈ fixedMarks, spells Lexeme.isMark part.1 part.2 = true) ∧
    ∀ part ∈ fixedWords, spells Lexeme.isWord part.1 part.2 = true := by
  decide +kernel

/-- **Fixed text** that ends in a mark is closed. -/
theorem closed_fixed {text : String} {ts : List Token} (h : (text, ts) ∈ fixedMarks) (b : Bool) :
    Closed b text.toList ts :=
  closed_literal (spells_fixed.1 _ h) b

/-- **Fixed text** that ends in a word is read. -/
theorem reads_fixed {text : String} {ts : List Token} (h : (text, ts) ∈ fixedWords) (b : Bool) :
    Reads b text.toList ts :=
  reads_literal (spells_fixed.2 _ h) b

end DdlGraph.Sql
