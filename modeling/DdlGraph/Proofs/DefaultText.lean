import DdlGraph.Proofs.NameText
import DdlGraph.Sql.Statement.Column

/-!
# Default values read back

A default that is no literal stands in a text as it is. It is *safe* (`SafeDefault`, in a dialect
`SafeIn`) if it is read as itself when it stands alone; then it is so in every text. The argument: an
expression is written anew from its tokens, with blanks between them, so a text that is read as
itself is made of just these tokens.

* `lexeme_alone`: a word or a number alone is the same piece;
* `expressionWords_spec`, `expressionWords_of_depth`: what an expression takes, and that it takes
  no more;
* `closed_expression`: a written expression spells its tokens;
* `not_mem_of_expression`: where backslashes escape, no expression with one is read as itself;
* `restores_of_safe`, `restores_of_safeIn`: safe defaults come back.
-/

namespace DdlGraph.Sql

/-! ## Words and numbers alone -/

theorem dropWhile_takeWhile (p : Char → Bool) (cs : List Char) :
    (cs.takeWhile p).dropWhile p = [] := by
  induction cs with
  | nil => rfl
  | cons c cs ih =>
    rw [List.takeWhile_cons]
    split
    · rename_i hc
      rw [List.dropWhile_cons, if_pos hc, ih]
    · rfl

theorem number_alone (cs : List Char) : number (number cs).1 = ((number cs).1, []) := by
  cases hc : cs.dropWhile Char.isDigit with
  | nil =>
    have hn : number cs = _ := number_of_no_point (by simp [hc])
    rw [hn, takeWhile_eq_self hc, hn, takeWhile_eq_self hc, hc]
  | cons d ds =>
    by_cases hp : d = '.'
    · subst hp
      have hall : ∀ c ∈ cs.takeWhile Char.isDigit, c.isDigit = true :=
        fun c hm => List.all_eq_true.1 List.all_takeWhile c hm
      have hdrop : (cs.takeWhile Char.isDigit ++ '.' :: ds.takeWhile Char.isDigit).dropWhile
          Char.isDigit = '.' :: ds.takeWhile Char.isDigit := by
        rw [List.dropWhile_append_of_pos hall]
        rfl
      have htake : (cs.takeWhile Char.isDigit ++ '.' :: ds.takeWhile Char.isDigit).takeWhile
          Char.isDigit = cs.takeWhile Char.isDigit := by
        rw [List.takeWhile_append_of_pos hall]
        exact List.append_nil _
      rw [number_of_point hc]
      dsimp only
      rw [number_of_point hdrop, htake, dropWhile_takeWhile,
        takeWhile_eq_self (dropWhile_takeWhile _ _)]
    · have hn : ∀ rest, cs.dropWhile Char.isDigit ≠ '.' :: rest := by
        rw [hc]
        exact fun rest he => hp (List.cons.inj he).1
      rw [number_of_no_point hn]
      dsimp only
      rw [number_of_no_point (by simp [dropWhile_takeWhile]), dropWhile_takeWhile,
        takeWhile_eq_self (dropWhile_takeWhile _ _)]

theorem wordLexeme_alone {c : Char} {cs : List Char} (h : (wordLexeme c cs).1.isWord = true) :
    (wordLexeme c cs).1.raw = c :: cs.takeWhile isWordPart ∧
      wordLexeme c (cs.takeWhile isWordPart) = ((wordLexeme c cs).1, []) := by
  have halone : wordLexeme c (cs.takeWhile isWordPart) =
      spelled (.ofWord (.ofList (c :: cs.takeWhile isWordPart)))
        (c :: cs.takeWhile isWordPart) [] := by
    rw [wordLexeme_of_no_apostrophe (by simp [dropWhile_takeWhile]), dropWhile_takeWhile,
      takeWhile_eq_self (dropWhile_takeWhile _ _)]
  rw [halone]
  by_cases hq : ∃ rest, cs.dropWhile isWordPart = '\'' :: rest
  · obtain ⟨rest, hq⟩ := hq
    rw [wordLexeme_of_apostrophe hq] at h ⊢
    split at h
    · cases h
    · rename_i he
      rw [if_neg he]
      exact ⟨rfl, rfl⟩
  · rw [wordLexeme_of_no_apostrophe fun rest hr => hq ⟨rest, hr⟩]
    exact ⟨rfl, rfl⟩

/-- **A word or a number alone** is the same piece. -/
theorem lexeme_alone {b : Bool} {c : Char} {cs : List Char}
    (h : (lexeme b c cs).1.isWord = true) :
    ∃ ds, (lexeme b c cs).1.raw = c :: ds ∧ ∀ b', lexeme b' c ds = ((lexeme b c cs).1, []) := by
  obtain ⟨d, ds, hraw⟩ := List.exists_cons_of_ne_nil (raw_ne_nil b c cs)
  have hrr := lexeme_raw_rest b c cs
  rw [hraw, List.cons_append, List.cons.injEq] at hrr
  obtain ⟨rfl, -⟩ := hrr
  refine ⟨ds, hraw, fun b' => ?_⟩
  rcases isWord_cases h with hword | hnumber | ⟨hm, hminus⟩
  · rw [hword] at h hraw
    obtain ⟨hraw', halone⟩ := wordLexeme_alone h
    obtain rfl := (List.cons.inj (hraw.symm.trans hraw')).2
    rw [hword, hword]
    exact halone
  · rw [hnumber] at hraw
    have hn : (number (d :: cs)).1 = d :: ds := hraw
    have halone := number_alone (d :: cs)
    rw [hn] at halone
    rw [hnumber, hnumber]
    unfold numberLexeme
    rw [halone, hn]
    rfl
  · obtain ⟨e, es, rfl, hdig, he⟩ := isWord_minusLexeme hm
    rw [hminus, he] at hraw
    have hn : (number (e :: es)).1 = ds := (List.cons.inj hraw).2
    obtain ⟨f, fs, hf⟩ := List.exists_cons_of_ne_nil (@number_raw_ne_nil e es hdig)
    have hhead := number_raw_rest (e :: es)
    rw [hf, List.cons_append, List.cons.injEq] at hhead
    obtain ⟨rfl, -⟩ := hhead
    have halone := number_alone (f :: es)
    rw [hn] at halone
    rw [hn] at hf
    subst hf
    rw [hminus, hminus, he, he, halone, hn]
    rfl

/-- The text of a word or a number. -/
def wordText? : Token → Option String
  | .ident s | .num s => some s
  | _ => none

theorem isWord_of_wordText? {l : Lexeme} {t : Token} {s : String} (ht : l.token = some t)
    (hs : wordText? t = some s) : l.isWord = true := by
  unfold Lexeme.isWord
  rw [ht]
  unfold wordText? at hs
  split at hs
  · rfl
  · rfl
  · cases hs

/-- The piece of a word or a number is its text. -/
theorem raw_of_wordText? {b : Bool} {c : Char} {cs : List Char} {t : Token} {s : String}
    (ht : (lexeme b c cs).1.token = some t) (hs : wordText? t = some s) :
    (lexeme b c cs).1.raw = s.toList := by
  have hw := isWord_of_wordText? ht hs
  cases t with
  | ident name =>
    obtain rfl := Option.some.inj hs
    exact (raw_of_ident ht).1
  | num digits =>
    obtain rfl := Option.some.inj hs
    rcases isWord_cases hw with hword | hnumber | ⟨hm, hminus⟩
    · rw [hword] at ht hw
      have hofWord : ∀ w, Token.ofWord w ≠ .num digits := by
        intro w he
        unfold Token.ofWord at he
        split at he <;> cases he
      have halone := (wordLexeme_alone hw).2
      have htoken := congrArg (·.1.token) halone
      dsimp only at htoken
      rw [wordLexeme_of_no_apostrophe (by simp [dropWhile_takeWhile]), ht] at htoken
      exact absurd (Option.some.inj htoken) (hofWord _)
    · rw [hnumber] at ht ⊢
      have hn : Token.num (.ofList (number (c :: cs)).1) = .num digits := Option.some.inj ht
      rw [← Token.num.inj hn, String.toList_ofList]
      rfl
    · obtain ⟨d, ds, rfl, -, hd⟩ := isWord_minusLexeme hm
      rw [hminus, hd] at ht ⊢
      have hn : Token.num (.ofList ('-' :: (number (d :: ds)).1)) = .num digits :=
        Option.some.inj ht
      rw [← Token.num.inj hn, String.toList_ofList]
      rfl
  | _ => cases hs

/-- A word or a number that was read once is read so again. -/
theorem reads_of_mem {b : Bool} {cs : List Char} {t : Token} {s : String}
    (h : t ∈ tokensOf b cs) (hs : wordText? t = some s) (b' : Bool) :
    Reads b' s.toList [t] := by
  unfold tokensOf at h
  fun_induction lexemes b cs with
  | case1 => cases h
  | case2 c cs ih =>
    rw [List.filterMap_cons] at h
    cases ht : (lexeme b c cs).1.token with
    | none =>
      rw [ht] at h
      exact ih h
    | some t' =>
      rw [ht] at h
      rcases List.mem_cons.1 h with rfl | h
      · have hw := isWord_of_wordText? ht hs
        obtain ⟨ds, hraw, halone⟩ := lexeme_alone hw
        rw [raw_of_wordText? ht hs] at hraw
        intro rest hr
        rw [hraw, List.cons_append, word_append hw (halone b') hr, ht]
        rfl
      · exact ih h

/-! ## Expressions -/

/-- How an expression writes a token. The others have no text in it. -/
def expressionText? : Token → Option String
  | .lparen => some "("
  | .rparen => some ")"
  | .ident s | .num s => some s
  | .str s => some (Ddl.stringLiteral .postgresql s)
  | .comma => some ","
  | _ => none

/-- How many parentheses are open after `t`. Nothing if it closes the expression or ends the
statement. -/
def depthStep (depth : Nat) : Token → Option Nat
  | .lparen => some (depth + 1)
  | .rparen => match depth with
    | 0 => none
    | d + 1 => some d
  | .semicolon | .endOfText => none
  | _ => some depth

def depthAfter (depth : Nat) : List Token → Option Nat
  | [] => some depth
  | t :: ts => (depthStep depth t).bind (depthAfter · ts)

theorem expressionWords_cons {depth depth' : Nat} {t : Token} (h : depthStep depth t = some depth')
    (line : Nat) (ps : Input) :
    expressionWords depth (⟨t, line⟩ :: ps) =
      ((expressionText? t).toList ++ (expressionWords depth' ps).1,
        (expressionWords depth' ps).2) := by
  cases t with
  | rparen =>
    cases depth with
    | zero => cases h
    | succ d =>
      obtain rfl := Option.some.inj h
      rfl
  | semicolon => cases h
  | endOfText => cases h
  | _ =>
    obtain rfl := Option.some.inj h
    rfl

theorem expressionWords_of_depth {depth : Nat} {ps : Input}
    (h : depthAfter depth (ps.map (·.token)) = some 0) (line : Nat) (rest : Input) :
    expressionWords depth (ps ++ ⟨.rparen, line⟩ :: rest) =
      ((ps.map (·.token)).filterMap expressionText?, rest) := by
  induction ps generalizing depth with
  | nil =>
    obtain rfl := Option.some.inj h
    rfl
  | cons p ps ih =>
    obtain ⟨depth', hstep, hrest⟩ := Option.bind_eq_some_iff.1 h
    rw [List.cons_append, expressionWords_cons hstep, ih hrest, List.map_cons,
      List.filterMap_cons]
    cases expressionText? p.token <;> rfl

/-- **What an expression takes**: tokens up to the parenthesis that closes it, or to where the
statement ends. -/
theorem expressionWords_spec (depth : Nat) (ps : Input) :
    ∃ body, (expressionWords depth ps).1 = body.filterMap expressionText? ∧
      (depthAfter depth body = some 0 ∧
          ps.map (·.token) = body ++ .rparen :: (expressionWords depth ps).2.map (·.token) ∨
        ps.map (·.token) = body ++ (expressionWords depth ps).2.map (·.token)) := by
  induction ps generalizing depth with
  | nil => exact ⟨[], rfl, .inr rfl⟩
  | cons p ps ih =>
    cases hstep : depthStep depth p.token with
    | some depth' =>
      obtain ⟨body, hbody, hcases⟩ := ih depth'
      refine ⟨p.token :: body, ?_, ?_⟩
      · rw [expressionWords_cons hstep, hbody, List.filterMap_cons]
        cases expressionText? p.token <;> rfl
      · rw [expressionWords_cons hstep, List.map_cons, depthAfter, hstep]
        exact hcases.imp (fun h => ⟨h.1, congrArg (p.token :: ·) h.2⟩)
          fun h => congrArg (p.token :: ·) h
    | none =>
      obtain ⟨t, line⟩ := p
      cases t with
      | rparen =>
        cases depth with
        | zero => exact ⟨[], rfl, .inl ⟨rfl, rfl⟩⟩
        | succ d => cases hstep
      | semicolon => exact ⟨[], rfl, .inr rfl⟩
      | endOfText => exact ⟨[], rfl, .inr rfl⟩
      | _ => cases hstep

/-- The tokens that an expression writes. -/
def kept (body : List Token) : List Token :=
  body.filter fun t => (expressionText? t).isSome

theorem filterMap_expressionText? (body : List Token) :
    body.filterMap expressionText? = (kept body).map fun t => (expressionText? t).getD "" := by
  unfold kept
  induction body with
  | nil => rfl
  | cons t body ih =>
    rw [List.filterMap_cons, List.filter_cons]
    cases ht : expressionText? t with
    | none => exact ih
    | some s =>
      rw [if_pos Option.isSome_some, List.map_cons, ht, ih]
      rfl

theorem intercalate_nil_singletons (ts : List Token) :
    ([] : List Token).intercalate (ts.map fun t => [t]) = ts := by
  induction ts with
  | nil => rfl
  | cons t ts ih =>
    cases ts with
    | nil => rfl
    | cons u us =>
      rw [List.map_cons, List.map_cons, List.intercalate_cons_cons]
      exact congrArg (t :: ·) ih

/-- **A written expression spells its tokens**, if words and numbers come from a text and strings
have no backslash that escapes. -/
theorem closed_expression {b b' : Bool} {cs : List Char} {body : List Token}
    (hwords : ∀ t ∈ body, t ∈ tokensOf b' cs)
    (hstrings : ∀ s, .str s ∈ body → b = false ∨ '\\' ∉ s.toList) :
    Closed b ("(" ++ Text.join " " (body.filterMap expressionText?) ++ ")").toList
      (.lparen :: kept body ++ [.rparen]) := by
  have hread : ∀ t ∈ kept body, Reads b ((expressionText? t).getD "").toList [t] := by
    intro t ht
    obtain ⟨hm, hsome⟩ := List.mem_filter.1 ht
    cases t with
    | lparen => exact (closed_mark (c := '(') rfl b).reads
    | rparen => exact (closed_mark (c := ')') rfl b).reads
    | comma => exact (closed_mark (c := ',') rfl b).reads
    | ident s => exact reads_of_mem (hwords _ hm) rfl b
    | num s => exact reads_of_mem (hwords _ hm) rfl b
    | str s => exact reads_stringLiteral fun he => ((hstrings s hm).resolve_right (· he)).symm
    | _ => cases hsome
  have hblank : Closed b [' '] [] := closed_blank (by decide) b
  have hjoin := reads_intercalate hblank (by decide) (by decide) hread
  rw [intercalate_nil_singletons] at hjoin
  unfold Text.join
  rw [filterMap_expressionText?, String.toList_append, String.toList_append,
    String.toList_intercalate, List.map_map]
  have hopen : Closed b "(".toList [.lparen] := closed_mark rfl b
  have hclose : Closed b ")".toList [.rparen] := closed_mark rfl b
  exact (hopen.append_reads hjoin).append_closed hclose (by decide) (by decide)

/-! ## Safe defaults -/

/-- **The value reads back**: alone in a text it is read as itself, to the end. -/
def ReadsBack (value : String) : Prop :=
  (defaultValue (tokens false value)).1 = value ∧
    (defaultValue (tokens false value)).2.map (·.token) = [.endOfText]

/-- A default that is a literal in a text, or is read as itself. -/
def SafeDefault (value : String) : Prop :=
  Ddl.isRawDefault value = false ∨ ReadsBack value

/-- The value reads back from a text whose strings are escaped as `b` says. -/
def ReadsBackIn (b : Bool) (value : String) : Prop :=
  (defaultValue (tokens b value)).1 = value ∧
    (defaultValue (tokens b value)).2.map (·.token) = [.endOfText]

theorem readsBack_iff {value : String} : ReadsBack value ↔ ReadsBackIn false value :=
  Iff.rfl

/-- A default that is a literal in a text of the dialect, or is read as itself from one. -/
def SafeIn (dialect : Dialect) (value : String) : Prop :=
  Ddl.isRawDefault value = false ∨ ReadsBackIn dialect.escapesBackslash value

/-- The tokens of a default. -/
def defaultTokens (value : String) : List Token :=
  if Ddl.isRawDefault value then tokensOf false value.toList else [.str value]

theorem length_delimited_le (close : Char) (b : Bool) (cs : List Char) :
    (delimited close b cs).text.length ≤ (delimited close b cs).raw.length := by
  fun_induction delimited close b cs with
  | case1 | case2 | case3 => simp
  | case4 cs ih | case6 _ _ _ _ _ ih | case7 _ _ _ _ _ ih =>
    simp only [Delimited.cons, List.length_cons, List.length_append, List.length_nil]
    omega
  | case5 => simp

theorem length_stringLiteral_lt {mark : List Char} (hm : mark ≠ []) (b : Bool) (cs : List Char) :
    (delimited '\'' b cs).text.length < (mark ++ (delimited '\'' b cs).raw).length := by
  have hle := length_delimited_le '\'' b cs
  have hpos := List.length_pos_iff.2 hm
  rw [List.length_append]
  omega

/-- No word is a string. -/
theorem ofWord_ne_str (word s : String) : Token.ofWord word ≠ .str s := by
  unfold Token.ofWord
  split <;> exact nofun

/-- **Piece of a string**: what an apostrophe opens behind a mark. Its backslashes escape where
those of the text do. -/
def StringPiece (b : Bool) (raw : List Char) (s : String) : Prop :=
  ∃ mark b' cs, mark ≠ [] ∧ (b = true → b' = true) ∧
    raw = mark ++ (delimited '\'' b' cs).raw ∧ s.toList = (delimited '\'' b' cs).text

theorem stringPiece_stringLiteral {mark cs : List Char} {b b' : Bool} {s : String}
    (hm : mark ≠ []) (hb : b = true → b' = true)
    (h : (stringLiteral mark b' cs).1.token = some (.str s)) :
    StringPiece b (stringLiteral mark b' cs).1.raw s := by
  have hs : Token.str (.ofList (delimited '\'' b' cs).text) = .str s := Option.some.inj h
  refine ⟨mark, b', cs, hm, hb, rfl, ?_⟩
  rw [← Token.str.inj hs, String.toList_ofList]

theorem stringPiece_wordLexeme {b : Bool} {c : Char} {cs : List Char} {s : String}
    (h : (wordLexeme c cs).1.token = some (.str s)) :
    StringPiece b (wordLexeme c cs).1.raw s := by
  by_cases hq : ∃ rest, cs.dropWhile isWordPart = '\'' :: rest
  · obtain ⟨rest, hq⟩ := hq
    rw [wordLexeme_of_apostrophe hq] at h ⊢
    split at h
    · rename_i he
      rw [if_pos he]
      exact stringPiece_stringLiteral (by simp) (fun _ => rfl) h
    · exact absurd (Option.some.inj h) (ofWord_ne_str _ s)
  · rw [wordLexeme_of_no_apostrophe fun rest hr => hq ⟨rest, hr⟩] at h
    exact absurd (Option.some.inj h) (ofWord_ne_str _ s)

/-- **The piece that spells a string** is that of a literal. -/
theorem stringPiece_of_token {b : Bool} {c : Char} {cs : List Char} {s : String}
    (h : (lexeme b c cs).1.token = some (.str s)) : StringPiece b (lexeme b c cs).1.raw s := by
  cases opens c with
  | string hc =>
    rw [hc] at h ⊢
    exact stringPiece_stringLiteral (List.cons_ne_nil _ _) id h
  | word hc =>
    rw [hc] at h ⊢
    exact stringPiece_wordLexeme h
  | skip p hc | stray hc | quote hc | number hc =>
    rw [hc] at h
    cases h
  | minus hc =>
    rw [hc] at h
    unfold minusLexeme at h
    repeat' split at h
    all_goals cases h
  | slash hc =>
    rw [hc] at h
    unfold slashLexeme at h
    split at h <;> cases h
  | bracket hc =>
    rw [hc] at h
    unfold bracketLexeme at h
    split at h <;> cases h
  | mark t ht hc =>
    rw [hc] at h
    obtain rfl : t = .str s := Option.some.inj h
    exact absurd (punctuation?_mem ht) (by simp)

/-- A string is shorter than its piece. -/
theorem StringPiece.length_lt {b : Bool} {raw : List Char} {s : String} (h : StringPiece b raw s) :
    s.toList.length < raw.length := by
  obtain ⟨mark, b', cs, hm, -, rfl, hs⟩ := h
  rw [hs]
  exact length_stringLiteral_lt hm b' cs

theorem length_str_lt {b : Bool} {cs : List Char} {s : String} (h : .str s ∈ tokensOf b cs) :
    s.toList.length < cs.length := by
  unfold tokensOf at h
  fun_induction lexemes b cs with
  | case1 => cases h
  | case2 c cs ih =>
    have hlen := congrArg List.length (lexeme_raw_rest b c cs)
    rw [List.length_append] at hlen
    rw [List.filterMap_cons] at h
    cases ht : (lexeme b c cs).1.token with
    | none =>
      rw [ht] at h
      have hlt := ih h
      omega
    | some t =>
      rw [ht] at h
      rcases List.mem_cons.1 h with rfl | h
      · have hlt := (stringPiece_of_token ht).length_lt
        omega
      · have hlt := ih h
        omega

/-! ## Backslashes that escape

Where backslashes escape, a literal has at least two for each one in its string. An expression is
written with just those of its strings, so one that is read as itself has none in them. -/

theorem count_cons_le {c : Char} {raw : List Char} {d : Delimited}
    (hc : 2 * [c].count '\\' ≤ raw.count '\\') (hd : 2 * d.text.count '\\' ≤ d.raw.count '\\') :
    2 * (d.cons c raw).text.count '\\' ≤ (d.cons c raw).raw.count '\\' := by
  have htext : (d.cons c raw).text = [c] ++ d.text := rfl
  have hraw : (d.cons c raw).raw = raw ++ d.raw := rfl
  rw [htext, hraw, List.count_append, List.count_append]
  omega

theorem unescape_eq_backslash {d : Char} (h : unescape d = '\\') : d = '\\' := by
  unfold unescape at h
  split at h
  · cases h
  · cases h
  · cases h
  · exact h

theorem count_delimited_le {close : Char} (h : close ≠ '\\') (cs : List Char) :
    2 * (delimited close true cs).text.count '\\' ≤ (delimited close true cs).raw.count '\\' := by
  have hsingle : ∀ c : Char, c ≠ '\\' → [c].count '\\' = 0 :=
    fun c hc => List.count_eq_zero.2 fun hm => hc (List.mem_singleton.1 hm).symm
  fun_induction delimited close true cs with
  | case1 | case2 | case5 => simp
  | case3 c hc =>
    have hzero := hsingle c fun he => hc (.inr ⟨he, rfl⟩)
    exact hzero.symm ▸ Nat.zero_le _
  | case4 cs ih =>
    refine count_cons_le ?_ ih
    exact (hsingle close h).symm ▸ Nat.zero_le _
  | case6 c d cs hc he ih =>
    refine count_cons_le ?_ ih
    obtain rfl : c = '\\' := he.1
    by_cases hd : unescape d = '\\'
    · rw [unescape_eq_backslash hd]
      decide
    · exact (hsingle _ hd).symm ▸ Nat.zero_le _
  | case7 c d cs hc he ih =>
    refine count_cons_le ?_ ih
    exact (hsingle c fun hb => he ⟨hb, rfl⟩).symm ▸ Nat.zero_le _

/-- The characters of a string. -/
def stringChars : Token → List Char
  | .str s => s.toList
  | _ => []

/-- The characters that a token is written with in an expression. -/
def writtenChars (t : Token) : List Char :=
  ((expressionText? t).getD "").toList

theorem count_writtenChars_str (s : String) :
    (writtenChars (.str s)).count '\\' = s.toList.count '\\' := by
  have hdoubled : ∀ cs, (Ddl.doubled '\'' cs).count '\\' = cs.count '\\' := by
    intro cs
    unfold Ddl.doubled
    induction cs with
    | nil => rfl
    | cons c cs ih =>
      rw [List.flatMap_cons, List.count_append, List.count_cons, ih, Nat.add_comm]
      congr 1
      split
      · rename_i he
        rw [he]
        decide
      · exact List.count_singleton
  have hliteral : (Ddl.stringLiteral .postgresql s).toList =
      '\'' :: Ddl.doubled '\'' s.toList ++ ['\''] := String.toList_ofList
  show (Ddl.stringLiteral .postgresql s).toList.count '\\' = _
  rw [hliteral, List.count_append, List.count_cons, hdoubled]
  rfl

/-- **A piece has as many backslashes** as its token is written with, and those of its string once
more. -/
theorem count_token_le {c : Char} {cs : List Char} {t : Token}
    (h : (lexeme true c cs).1.token = some t) :
    (writtenChars t).count '\\' + (stringChars t).count '\\' ≤
      (lexeme true c cs).1.raw.count '\\' := by
  cases t with
  | str s =>
    obtain ⟨mark, b, ds, -, hb, hraw, hs⟩ := stringPiece_of_token h
    obtain rfl : b = true := hb rfl
    have hle := @count_delimited_le '\'' (by decide) ds
    have hstring : stringChars (.str s) = s.toList := rfl
    rw [count_writtenChars_str, hstring, hraw, hs, List.count_append]
    omega
  | ident s =>
    rw [raw_of_wordText? h rfl]
    exact Nat.le_refl _
  | num s =>
    rw [raw_of_wordText? h rfl]
    exact Nat.le_refl _
  | _ => exact Nat.zero_le _

theorem count_tokensOf_le (cs : List Char) :
    ((tokensOf true cs).flatMap writtenChars).count '\\' +
      ((tokensOf true cs).flatMap stringChars).count '\\' ≤ cs.count '\\' := by
  unfold tokensOf
  fun_induction lexemes true cs with
  | case1 => exact Nat.le_refl _
  | case2 c cs ih =>
    have hcount := congrArg (List.count '\\') (lexeme_raw_rest true c cs)
    rw [List.count_append] at hcount
    rw [List.filterMap_cons]
    cases ht : (lexeme true c cs).1.token with
    | none =>
      dsimp only
      omega
    | some t =>
      have hle := count_token_le ht
      dsimp only
      rw [List.flatMap_cons, List.flatMap_cons, List.count_append, List.count_append]
      omega

theorem count_intercalate_blank (lists : List (List Char)) :
    ([' '].intercalate lists).count '\\' = lists.flatten.count '\\' := by
  induction lists with
  | nil => rfl
  | cons l ls ih =>
    cases ls with
    | nil => rw [List.intercalate_singleton, List.flatten_singleton]
    | cons m ms =>
      have hflat : (l :: m :: ms).flatten = l ++ (m :: ms).flatten := rfl
      rw [List.intercalate_cons_cons, hflat, List.count_append, List.count_append, List.count_append,
        ih]
      rfl

/-- An expression has the backslashes that its tokens are written with. -/
theorem count_expression (body : List Token) :
    ("(" ++ Text.join " " (body.filterMap expressionText?) ++ ")").toList.count '\\' =
      (body.flatMap writtenChars).count '\\' := by
  have hwords : ((body.filterMap expressionText?).map String.toList).flatten =
      body.flatMap writtenChars := by
    induction body with
    | nil => rfl
    | cons t body ih =>
      rw [List.filterMap_cons, List.flatMap_cons, ← ih]
      unfold writtenChars
      cases expressionText? t <;> rfl
  have hopen : "(".toList.count '\\' = 0 := by decide
  have hclose : ")".toList.count '\\' = 0 := by decide
  have hblank : " ".toList = [' '] := rfl
  unfold Text.join
  rw [String.toList_append, String.toList_append, String.toList_intercalate, List.count_append,
    List.count_append, hopen, hclose, hblank, count_intercalate_blank, hwords, Nat.zero_add,
    Nat.add_zero]

/-- **No string of an expression that is read as itself has a backslash**, if backslashes escape. -/
theorem not_mem_of_expression {body ts : List Token}
    (h : tokensOf true ("(" ++ Text.join " " (body.filterMap expressionText?) ++ ")").toList =
      .lparen :: ts)
    (hts : ts = body ++ [.rparen] ∨ ts = body) {s : String} (hs : .str s ∈ body) :
    '\\' ∉ s.toList := by
  have hle := count_tokensOf_le
    ("(" ++ Text.join " " (body.filterMap expressionText?) ++ ")").toList
  have hbody : ∀ f : Token → List Char,
      (body.flatMap f).count '\\' ≤ ((Token.lparen :: ts).flatMap f).count '\\' := by
    intro f
    rw [List.flatMap_cons, List.count_append]
    rcases hts with rfl | rfl
    · rw [List.flatMap_append, List.count_append]
      omega
    · omega
  have hwritten := hbody writtenChars
  have hstrings := hbody stringChars
  rw [h, count_expression] at hle
  have hnone : (body.flatMap stringChars).count '\\' = 0 := by omega
  exact fun hm => List.count_eq_zero.1 hnone (List.mem_flatMap.2 ⟨.str s, hs, hm⟩)

/-! ## Expressions that read back -/

theorem mem_intercalate {α : Type} {separator : List α} {lists : List (List α)} {l : List α}
    (hl : l ∈ lists) {a : α} (ha : a ∈ l) : a ∈ separator.intercalate lists := by
  induction lists with
  | nil => cases hl
  | cons m ms ih =>
    cases ms with
    | nil =>
      rw [List.intercalate_singleton]
      exact List.mem_singleton.1 hl ▸ ha
    | cons n ns =>
      rw [List.intercalate_cons_cons, List.append_assoc]
      rcases List.mem_cons.1 hl with rfl | hl
      · exact List.mem_append_left _ ha
      · exact List.mem_append_right _ (List.mem_append_right _ (ih hl))

/-- The strings of an expression stand in its text. -/
theorem mem_expression {body : List Token} {s : String} (h : .str s ∈ body) {c : Char}
    (hc : c ∈ s.toList) :
    c ∈ ("(" ++ Text.join " " (body.filterMap expressionText?) ++ ")").toList := by
  have hm : Ddl.stringLiteral .postgresql s ∈ body.filterMap expressionText? :=
    List.mem_filterMap.2 ⟨.str s, h, rfl⟩
  have hd : c ∈ Ddl.doubled '\'' s.toList := by
    refine List.mem_flatMap.2 ⟨c, hc, ?_⟩
    split
    · rename_i he
      exact he ▸ .head _
    · exact .head _
  have hl : c ∈ (Ddl.stringLiteral .postgresql s).toList := by
    unfold Ddl.stringLiteral
    rw [String.toList_ofList]
    exact List.mem_append_left _ (.tail _ hd)
  unfold Text.join
  rw [String.toList_append, String.toList_append, String.toList_intercalate]
  exact List.mem_append_left _ (List.mem_append_right _
    (mem_intercalate (List.mem_map_of_mem hm) hl))

theorem count_rparen_kept (body : List Token) :
    (kept body).count .rparen = body.count .rparen := by
  unfold kept
  exact List.count_filter rfl

/-- **An expression that reads back** is made of its tokens, and closed by the last of them. -/
theorem expression_readsBack {b₀ : Bool} {ts : List Token} {ps : Input}
    (hps : ps.map (·.token) = ts ++ [.endOfText])
    (hrest : (expression ps).2.map (·.token) = [.endOfText])
    (hback : tokensOf b₀ (expression ps).1.toList = .lparen :: ts) :
    ∃ body, ts = body ++ [.rparen] ∧ depthAfter 0 body = some 0 ∧
      (expression ps).1 = "(" ++ Text.join " " (body.filterMap expressionText?) ++ ")" ∧
      ∀ b, (b = true → b₀ = true ∨ '\\' ∉ (expression ps).1.toList) →
        Closed b (expression ps).1.toList (.lparen :: ts) := by
  obtain ⟨body, hbody, hcases⟩ := expressionWords_spec 0 ps
  have hrest' : (expressionWords 0 ps).2.map (·.token) = [.endOfText] := hrest
  have htext : (expression ps).1 =
      "(" ++ Text.join " " (body.filterMap expressionText?) ++ ")" := by
    rw [← hbody]
    rfl
  rw [hrest', hps] at hcases
  have hbodies : depthAfter 0 body = some 0 ∧ ts = body ++ [.rparen] ∨ ts = body := by
    rcases hcases with ⟨hdepth, hts⟩ | hts
    · have happ : ts ++ [.endOfText] = (body ++ [.rparen]) ++ [.endOfText] := by
        rw [hts, List.append_assoc]
        rfl
      exact .inl ⟨hdepth, List.append_cancel_right happ⟩
    · exact .inr (List.append_cancel_right hts)
  have hsub : ∀ t ∈ body, t ∈ tokensOf b₀ (expression ps).1.toList := by
    intro t ht
    rw [hback]
    rcases hbodies with ⟨-, rfl⟩ | rfl
    · exact .tail _ (List.mem_append_left _ ht)
    · exact .tail _ ht
  have hclosed : ∀ b, (b = true → b₀ = true ∨ '\\' ∉ (expression ps).1.toList) →
      Closed b (expression ps).1.toList (.lparen :: kept body ++ [.rparen]) := by
    intro b hb
    rw [htext] at hback hsub hb ⊢
    refine closed_expression hsub fun s hs => ?_
    cases b with
    | false => exact .inl rfl
    | true =>
      refine .inr ?_
      rcases hb rfl with rfl | hn
      · exact not_mem_of_expression hback (hbodies.imp_left And.right) hs
      · exact fun hc => hn (mem_expression hs hc)
  have hkept : kept body ++ [.rparen] = ts := by
    have h := hclosed b₀ (fun h => .inl h) []
    rw [List.append_nil, hback, tokensOf_nil, List.append_nil] at h
    exact (List.cons.inj h).2.symm
  rcases hbodies with ⟨hdepth, hts⟩ | hts
  · refine ⟨body, hts, hdepth, htext, fun b hb => ?_⟩
    rw [← hkept]
    exact hclosed b hb
  · -- An expression that is not closed has one parenthesis less than its text.
    have hcount := congrArg (List.count Token.rparen) hkept
    rw [hts, List.count_append, count_rparen_kept] at hcount
    have hone : List.count Token.rparen [Token.rparen] = 1 := rfl
    omega

/-- Reading an expression from its tokens takes just these. -/
theorem expression_of_tokens {body : List Token} (hdepth : depthAfter 0 body = some 0)
    {ps : Input} (hps : ps.map (·.token) = body ++ [.rparen]) (rest : Input) :
    expression (ps ++ rest) =
      ("(" ++ Text.join " " (body.filterMap expressionText?) ++ ")", rest) := by
  obtain ⟨qs, q, rfl, rfl, hq⟩ := List.map_eq_append_iff.1 hps
  obtain ⟨⟨t, line⟩, rs, rfl, ht, hrs⟩ := List.map_eq_cons_iff.1 hq
  obtain rfl := List.map_eq_nil_iff.1 hrs
  obtain rfl : t = .rparen := ht
  unfold expression
  rw [List.append_assoc, List.singleton_append, expressionWords_of_depth hdepth]

/-! ## Safe defaults that read back -/

/-- What a text spells, and what is read from it. -/
def Restores (b : Bool) (text : List Char) (ts : List Token) (value : String) : Prop :=
  Reads b text ts ∧ ∀ ps rest : Input, ps.map (·.token) = ts → nextToken rest ≠ .lparen →
    defaultValue (ps ++ rest) = (value, rest)

theorem defaultValue_ident {name : String} {line : Nat} {rest : Input}
    (h : nextToken rest ≠ .lparen) : defaultValue (⟨.ident name, line⟩ :: rest) = (name, rest) := by
  cases rest with
  | nil => rfl
  | cons p rest =>
    obtain ⟨t, l⟩ := p
    cases t with
    | lparen => exact absurd rfl h
    | _ => rfl

theorem restores_singleton {b : Bool} {text : List Char} {t : Token} {value : String}
    (hr : Reads b text [t]) (h : ∀ line rest, nextToken rest ≠ .lparen →
      defaultValue (⟨t, line⟩ :: rest) = (value, rest)) : Restores b text [t] value := by
  refine ⟨hr, fun ps rest hps hn => ?_⟩
  obtain ⟨p, qs, rfl, ht, hqs⟩ := List.map_eq_cons_iff.1 hps
  obtain rfl := List.map_eq_nil_iff.1 hqs
  obtain ⟨t', line⟩ := p
  obtain rfl : t' = t := ht
  exact h line rest hn

theorem restores_expression {ts : List Token} {value : String} {ps : Input} {b b₀ : Bool}
    (hb : b = true → b₀ = true ∨ '\\' ∉ value.toList)
    (hps : ps.map (·.token) = ts ++ [.endOfText]) (hvalue : (expression ps).1 = value)
    (hrest : (expression ps).2.map (·.token) = [.endOfText])
    (hback : tokensOf b₀ value.toList = .lparen :: ts) :
    Restores b value.toList (.lparen :: ts) value := by
  subst hvalue
  obtain ⟨body, rfl, hdepth, htext, hclosed⟩ :=
    expression_readsBack hps hrest hback
  refine ⟨(hclosed b hb).reads, fun qs rest hqs _ => ?_⟩
  obtain ⟨⟨t, line⟩, rs, rfl, ht, hrs⟩ := List.map_eq_cons_iff.1 hqs
  obtain rfl : t = .lparen := ht
  rw [List.cons_append]
  show expression (rs ++ rest) = _
  rw [expression_of_tokens hdepth hrs, htext]

theorem restores_call {ts : List Token} {name value : String} {ps : Input} {b b₀ : Bool}
    (hb : b = true → b₀ = true ∨ '\\' ∉ value.toList)
    (hps : ps.map (·.token) = ts ++ [.endOfText]) (hvalue : name ++ (expression ps).1 = value)
    (hrest : (expression ps).2.map (·.token) = [.endOfText])
    (hback : tokensOf b₀ value.toList = .ident name :: .lparen :: ts) :
    Restores b value.toList (.ident name :: .lparen :: ts) value := by
  subst hvalue
  have hname : ∀ b, Reads b name.toList [.ident name] := by
    have hmem : .ident name ∈ tokensOf b₀ (name ++ (expression ps).1).toList := by
      rw [hback]
      exact .head _
    exact reads_of_mem hmem rfl
  have hstops : Stops (expression ps).1.toList := by
    show Stops ("(" ++ _ ++ ")").toList
    rw [String.toList_append, String.toList_append]
    unfold Stops
    simp only [String.reduceToList, List.cons_append, List.nil_append, List.head?_cons,
      Option.mem_def, Option.some.injEq, forall_eq']
    decide
  have hne : (expression ps).1.toList ≠ [] := by
    show ("(" ++ _ ++ ")").toList ≠ []
    rw [String.toList_append, String.toList_append]
    exact List.cons_ne_nil _ _
  have hback' : tokensOf b₀ (expression ps).1.toList = .lparen :: ts := by
    rw [String.toList_append, hname b₀ _ hstops] at hback
    exact (List.cons.inj hback).2
  obtain ⟨body, rfl, hdepth, htext, hclosed⟩ :=
    expression_readsBack hps hrest hback'
  refine ⟨?_, fun qs rest hqs _ => ?_⟩
  · rw [String.toList_append] at hb ⊢
    have hc := hclosed b fun h =>
      (hb h).imp_right fun hn hm => hn (List.mem_append_right _ hm)
    exact ((hname b).append_closed hc hstops hne).reads
  · obtain ⟨⟨t, line⟩, rs, rfl, ht, hrs⟩ := List.map_eq_cons_iff.1 hqs
    obtain rfl : t = .ident name := ht
    obtain ⟨⟨t, line'⟩, us, rfl, ht, hus⟩ := List.map_eq_cons_iff.1 hrs
    obtain rfl : t = .lparen := ht
    rw [List.cons_append, List.cons_append]
    show (name ++ (expression (us ++ rest)).1, (expression (us ++ rest)).2) = _
    rw [expression_of_tokens hdepth hus, htext]

/-- The tokens of a text, of which the first is known. -/
theorem tokensOf_of_head {b : Bool} {text : String} {t : Token} {line : Nat} {ps : Input}
    (h : tokens b text = ⟨t, line⟩ :: ps) (ht : t ≠ .endOfText) :
    ∃ ts, tokensOf b text.toList = t :: ts ∧ ps.map (·.token) = ts ++ [.endOfText] := by
  have hmap := tokens_map_token b text
  rw [h, List.map_cons] at hmap
  cases hts : tokensOf b text.toList with
  | nil =>
    rw [hts] at hmap
    exact absurd (List.cons.inj hmap).1 ht
  | cons t' ts =>
    rw [hts, List.cons_append, List.cons.injEq] at hmap
    obtain ⟨rfl, hps⟩ := hmap
    exact ⟨ts, rfl, hps⟩

/-- One token alone, and then the end of the text. -/
theorem tokensOf_alone {b : Bool} {text : String} {t : Token} {line : Nat} {ps : Input}
    (h : tokens b text = ⟨t, line⟩ :: ps) (ht : t ≠ .endOfText)
    (hend : ps.map (·.token) = [.endOfText]) : tokensOf b text.toList = [t] := by
  obtain ⟨ts, hts, hps⟩ := tokensOf_of_head h ht
  obtain rfl : ts = [] := List.self_eq_append_left.1 (hend.symm.trans hps)
  exact hts

theorem reads_of_alone {b : Bool} {cs : List Char} {t : Token} {s : String}
    (h : tokensOf b cs = [t]) (hs : wordText? t = some s) (b' : Bool) : Reads b' s.toList [t] := by
  have hmem : t ∈ tokensOf b cs := h ▸ List.mem_singleton_self t
  exact reads_of_mem hmem hs b'

/-- **A value that reads back** does so in every text: if backslashes escape in the text, they have
to do so already, or the value has none. -/
theorem restores_of_readsBack {value : String} (hne : value ≠ "") {b₀ : Bool}
    (h : ReadsBackIn b₀ value) {b : Bool} (hb : b = true → b₀ = true ∨ '\\' ∉ value.toList) :
    Restores b value.toList (tokensOf b₀ value.toList) value := by
  obtain ⟨hvalue, hrest⟩ := h
  cases hps : tokens b₀ value with
  | nil =>
    rw [hps] at hvalue
    exact absurd hvalue.symm hne
  | cons p ps =>
    obtain ⟨t, line⟩ := p
    rw [hps] at hvalue hrest
    cases t with
    | str s =>
      obtain rfl : s = value := hvalue
      have hmem : .str s ∈ tokensOf b₀ s.toList := by
        rw [tokensOf_alone hps nofun hrest]
        exact .head _
      exact absurd (length_str_lt hmem) (Nat.lt_irrefl _)
    | num s =>
      obtain rfl : s = value := hvalue
      have hone := tokensOf_alone hps nofun hrest
      rw [hone]
      exact restores_singleton (reads_of_alone hone rfl b) fun _ _ _ => rfl
    | keyword k =>
      cases k with
      | null =>
        obtain rfl : "NULL" = value := hvalue
        rw [tokensOf_alone hps nofun hrest]
        exact restores_singleton (reads_fixed (by decide) b) fun _ _ _ => rfl
      | _ => exact absurd hvalue.symm hne
    | ident s =>
      cases ps with
      | nil => cases hrest
      | cons q qs =>
        obtain ⟨u, line'⟩ := q
        by_cases hu : u = .lparen
        · subst hu
          obtain ⟨ts, hts, hqs⟩ := tokensOf_of_head hps nofun
          cases ts with
          | nil => cases hqs
          | cons t' ts =>
            rw [List.map_cons, List.cons_append, List.cons.injEq] at hqs
            obtain ⟨rfl, hqs⟩ := hqs
            rw [hts]
            exact restores_call hb hqs hvalue hrest hts
        · rw [@defaultValue_ident s line (⟨u, line'⟩ :: qs) hu] at hvalue hrest
          obtain rfl : s = value := hvalue
          have hone := tokensOf_alone hps nofun hrest
          rw [hone]
          exact restores_singleton (reads_of_alone hone rfl b) fun _ _ hn => defaultValue_ident hn
    | lparen =>
      obtain ⟨ts, hts, hps'⟩ := tokensOf_of_head hps nofun
      rw [hts]
      exact restores_expression hb hps' hvalue hrest hts
    | _ => exact absurd hvalue.symm hne

/-- **Backslashes of a default** mean the same to writer and reader: a literal is escaped as it is
read, and what is no literal has none where they escape. -/
def BackslashSafe (dialect : Dialect) (b : Bool) (value : String) : Prop :=
  '\\' ∈ value.toList → dialect.escapesBackslash = b ∧ (b = true → Ddl.isRawDefault value = false)

theorem BackslashSafe.of_or {dialect : Dialect} (hd : dialect.escapesBackslash = false) {b : Bool}
    {value : String} (h : b = false ∨ '\\' ∉ value.toList) : BackslashSafe dialect b value := by
  intro hm
  obtain rfl : b = false := h.resolve_right (· hm)
  exact ⟨hd, nofun⟩

theorem ne_empty_of_isRawDefault {value : String} (h : Ddl.isRawDefault value = true) :
    value ≠ "" := by
  rintro rfl
  exact absurd h (by decide)

/-- **A safe default** spells its tokens, and is read from them. -/
theorem restores_of_safe {value : String} (h : SafeDefault value) {dialect : Dialect} {b : Bool}
    (hb : BackslashSafe dialect b value) :
    Restores b (Ddl.defaultLiteral dialect value).toList (defaultTokens value) value := by
  unfold Ddl.defaultLiteral defaultTokens
  cases hraw : Ddl.isRawDefault value with
  | false =>
    rw [if_neg Bool.false_ne_true, if_neg Bool.false_ne_true]
    exact restores_singleton (reads_stringLiteral fun hm => (hb hm).1) fun _ _ _ => rfl
  | true =>
    rw [if_pos rfl, if_pos rfl]
    have hescape : b = true → false = true ∨ '\\' ∉ value.toList := by
      refine fun htrue => .inr fun hm => ?_
      have hliteral := (hb hm).2 htrue
      rw [hraw] at hliteral
      cases hliteral
    rcases h with hlit | hback
    · rw [hraw] at hlit
      cases hlit
    · exact restores_of_readsBack (ne_empty_of_isRawDefault hraw) (readsBack_iff.1 hback) hescape

/-- **A default that is safe in a dialect** comes back from a text of it. -/
theorem restores_of_safeIn {value : String} {dialect : Dialect} (h : SafeIn dialect value) :
    ∃ ts, Restores dialect.escapesBackslash (Ddl.defaultLiteral dialect value).toList ts value := by
  unfold Ddl.defaultLiteral
  cases hraw : Ddl.isRawDefault value with
  | false =>
    rw [if_neg Bool.false_ne_true]
    exact ⟨_, restores_singleton (reads_stringLiteral fun _ => rfl) fun _ _ _ => rfl⟩
  | true =>
    rw [if_pos rfl]
    rcases h with hlit | hback
    · rw [hraw] at hlit
      cases hlit
    · exact ⟨_, restores_of_readsBack (ne_empty_of_isRawDefault hraw) hback .inl⟩

end DdlGraph.Sql
