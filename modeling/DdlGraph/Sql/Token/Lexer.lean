import DdlGraph.Sql.Token.Basic
import DdlGraph.Text.Letter

/-!
# Reading tokens

A text is cut into lexemes: pieces that make up the text, each with the token it spells, or none
for white space, comments and stray characters. The line of a token follows from the pieces before
it.

* `flatMap_raw_lexemes`: the pieces make up the text;
* `raw_ne_nil`: no piece is empty, so reading ends.
-/

namespace DdlGraph.Sql

/-- A piece of a text and the token that it spells. -/
structure Lexeme where
  raw : List Char
  token : Option Token
deriving DecidableEq

/-! ## Delimited text -/

/-- A delimited text after its opening mark: what it says, what was read, and what follows. -/
structure Delimited where
  text : List Char
  raw : List Char
  rest : List Char

/-- The character that a backslash and `c` stand for. -/
def unescape (c : Char) : Char :=
  match c with
  | 'n' => '\n'
  | 't' => '\t'
  | 'r' => '\r'
  | c => c

/-- One more character, written as `raw`, in front. -/
def Delimited.cons (c : Char) (raw : List Char) (d : Delimited) : Delimited :=
  ⟨c :: d.text, raw ++ d.raw, d.rest⟩

/-- **Text up to `close`**, where a doubled `close` stands for itself and, with `backslash`, a
backslash for the character after it. A text that is not closed ends with the input. -/
def delimited (close : Char) (backslash : Bool) : List Char → Delimited
  | [] => ⟨[], [], []⟩
  | [c] =>
    if c = close ∨ (c = '\\' ∧ backslash) then ⟨[], [c], []⟩ else ⟨[c], [c], []⟩
  | c :: d :: cs =>
    if c = close then
      if d = close then (delimited close backslash cs).cons c [c, d] else ⟨[], [c], d :: cs⟩
    else if c = '\\' ∧ backslash then (delimited close backslash cs).cons (unescape d) [c, d]
    else (delimited close backslash (d :: cs)).cons c [c]

theorem delimited_raw_rest (close : Char) (backslash : Bool) (cs : List Char) :
    (delimited close backslash cs).raw ++ (delimited close backslash cs).rest = cs := by
  fun_induction delimited close backslash cs <;> simp_all [Delimited.cons]

/-! ## Comments and numbers -/

/-- The rest of a block comment, up to and with the first star and slash; `star` if a star came
last. -/
def blockComment (star : Bool) : List Char → List Char × List Char
  | [] => ([], [])
  | c :: cs =>
    if star ∧ c = '/' then ([c], cs)
    else
      let (raw, rest) := blockComment (c == '*') cs
      (c :: raw, rest)

theorem blockComment_raw_rest (star : Bool) (cs : List Char) :
    (blockComment star cs).1 ++ (blockComment star cs).2 = cs := by
  fun_induction blockComment star cs <;> simp_all

/-- Digits, and a point with any number of digits. -/
def number (cs : List Char) : List Char × List Char :=
  let whole := cs.takeWhile Char.isDigit
  match cs.dropWhile Char.isDigit with
  | '.' :: rest => (whole ++ '.' :: rest.takeWhile Char.isDigit, rest.dropWhile Char.isDigit)
  | rest => (whole, rest)

theorem number_raw_rest (cs : List Char) : (number cs).1 ++ (number cs).2 = cs := by
  have h := List.takeWhile_append_dropWhile (p := Char.isDigit) (l := cs)
  unfold number
  split
  · rename_i rest hr
    rw [hr] at h
    simp only [List.append_assoc, List.cons_append, List.takeWhile_append_dropWhile]
    exact h
  · exact h

/-- Characters that go on a word. -/
def isWordPart (c : Char) : Bool :=
  Text.isAlnum c || c == '_' || c == '$'

/-- Characters that begin a word. -/
def isWordStart (c : Char) : Bool :=
  Text.isLetter c || c == '_'

/-! ## Lexemes -/

/-- A piece that spells no token. -/
def skipped (raw rest : List Char) : Lexeme × List Char :=
  (⟨raw, none⟩, rest)

/-- A piece that spells `t`. -/
def spelled (t : Token) (raw rest : List Char) : Lexeme × List Char :=
  (⟨raw, some t⟩, rest)

/-- The name between a mark and `close`. -/
def quotedName (mark close : Char) (cs : List Char) : Lexeme × List Char :=
  let d := delimited close false cs
  spelled (.quotedIdent (.ofList d.text)) (mark :: d.raw) d.rest

/-- The string literal that an apostrophe opens, after `mark`. -/
def stringLiteral (mark : List Char) (backslash : Bool) (cs : List Char) : Lexeme × List Char :=
  let d := delimited '\'' backslash cs
  spelled (.str (.ofList d.text)) (mark ++ d.raw) d.rest

/-- The word that begins with `c`, or the string that `E` and an apostrophe open. -/
def wordLexeme (c : Char) (cs : List Char) : Lexeme × List Char :=
  let word := c :: cs.takeWhile isWordPart
  match cs.dropWhile isWordPart with
  | '\'' :: rest =>
    if word = ['e'] ∨ word = ['E'] then stringLiteral (word ++ ['\'']) true rest
    else spelled (.ofWord (.ofList word)) word ('\'' :: rest)
  | rest => spelled (.ofWord (.ofList word)) word rest

/-- The token of a punctuation mark. -/
def punctuation? : Char → Option Token
  | '(' => some .lparen
  | ')' => some .rparen
  | ',' => some .comma
  | ';' => some .semicolon
  | '.' => some .dot
  | _ => none

/-- The piece after a minus. -/
def minusLexeme (cs : List Char) : Lexeme × List Char :=
  match cs with
  | d :: rest =>
    if d = '-' then
      skipped ('-' :: cs.takeWhile (· ≠ '\n')) (cs.dropWhile (· ≠ '\n'))
    else if d.isDigit then
      let n := number (d :: rest)
      spelled (.num (.ofList ('-' :: n.1))) ('-' :: n.1) n.2
    else skipped ['-'] (d :: rest)
  | [] => skipped ['-'] []

/-- The piece after a slash. -/
def slashLexeme : List Char → Lexeme × List Char
  | '*' :: rest =>
    let b := blockComment false rest
    skipped ('/' :: '*' :: b.1) b.2
  | cs => skipped ['/'] cs

/-- The piece after an opening bracket. -/
def bracketLexeme : List Char → Lexeme × List Char
  | ']' :: rest => spelled .arraySuffix ['[', ']'] rest
  | cs => quotedName '[' ']' cs

/-- **One piece** of a text that begins with `c`, and what follows it. With `backslash`, backslashes
escape in every string literal. -/
def lexeme (backslash : Bool) (c : Char) (cs : List Char) : Lexeme × List Char :=
  if Text.isBlank c then
    skipped (c :: cs.takeWhile Text.isBlank) (cs.dropWhile Text.isBlank)
  else if c = '-' then minusLexeme cs
  else if c = '#' then skipped (c :: cs.takeWhile (· ≠ '\n')) (cs.dropWhile (· ≠ '\n'))
  else if c = '/' then slashLexeme cs
  else match punctuation? c with
    | some t => spelled t [c] cs
    | none =>
      if c = '"' ∨ c = '`' then quotedName c c cs
      else if c = '[' then bracketLexeme cs
      else if c = '\'' then stringLiteral [c] backslash cs
      else if c.isDigit then
        let n := number (c :: cs)
        spelled (.num (.ofList n.1)) n.1 n.2
      else if isWordStart c then wordLexeme c cs
      else skipped [c] cs

theorem minusLexeme_raw_rest (cs : List Char) :
    (minusLexeme cs).1.raw ++ (minusLexeme cs).2 = '-' :: cs := by
  unfold minusLexeme
  split
  · rename_i d rest
    split
    · simp [skipped]
    · split
      · simpa [spelled] using number_raw_rest (d :: rest)
      · simp [skipped]
  · simp [skipped]

theorem slashLexeme_raw_rest (cs : List Char) :
    (slashLexeme cs).1.raw ++ (slashLexeme cs).2 = '/' :: cs := by
  unfold slashLexeme
  split
  · simpa [skipped] using blockComment_raw_rest false _
  · simp [skipped]

theorem quotedName_raw_rest (mark close : Char) (cs : List Char) :
    (quotedName mark close cs).1.raw ++ (quotedName mark close cs).2 = mark :: cs := by
  simpa [quotedName, spelled] using delimited_raw_rest close false cs

theorem bracketLexeme_raw_rest (cs : List Char) :
    (bracketLexeme cs).1.raw ++ (bracketLexeme cs).2 = '[' :: cs := by
  unfold bracketLexeme
  split
  · simp [spelled]
  · exact quotedName_raw_rest _ _ _

theorem wordLexeme_raw_rest (c : Char) (cs : List Char) :
    (wordLexeme c cs).1.raw ++ (wordLexeme c cs).2 = c :: cs := by
  have h := List.takeWhile_append_dropWhile (p := isWordPart) (l := cs)
  unfold wordLexeme
  split
  · rename_i rest hr
    rw [hr] at h
    dsimp only
    split
    · simpa [stringLiteral, spelled, List.append_assoc, delimited_raw_rest] using h
    · simpa [spelled] using h
  · simp [spelled]

/-- **A piece and what follows make up the text.** -/
theorem lexeme_raw_rest (backslash : Bool) (c : Char) (cs : List Char) :
    (lexeme backslash c cs).1.raw ++ (lexeme backslash c cs).2 = c :: cs := by
  unfold lexeme
  repeat' split
  · simp [skipped]
  · rename_i h; simpa [h] using minusLexeme_raw_rest cs
  · simp [skipped]
  · rename_i h; simpa [h] using slashLexeme_raw_rest cs
  · simp [spelled]
  · exact quotedName_raw_rest c c cs
  · rename_i h; simpa [h] using bracketLexeme_raw_rest cs
  · simp [stringLiteral, spelled, delimited_raw_rest]
  · simpa [spelled] using number_raw_rest (c :: cs)
  · exact wordLexeme_raw_rest c cs
  · simp [skipped]

theorem number_raw_ne_nil {c : Char} {cs : List Char} (h : c.isDigit) :
    (number (c :: cs)).1 ≠ [] := by
  unfold number
  split <;> simp [h]

theorem wordLexeme_raw_ne_nil (c : Char) (cs : List Char) : (wordLexeme c cs).1.raw ≠ [] := by
  unfold wordLexeme
  split
  · dsimp only
    split <;> simp [stringLiteral, spelled]
  · simp [spelled]

theorem raw_ne_nil (backslash : Bool) (c : Char) (cs : List Char) :
    (lexeme backslash c cs).1.raw ≠ [] := by
  unfold lexeme
  repeat' split
  · simp [skipped]
  · unfold minusLexeme
    repeat' split
    all_goals simp [skipped, spelled]
  · simp [skipped]
  · unfold slashLexeme
    split <;> simp [skipped]
  · simp [spelled]
  · simp [quotedName, spelled]
  · unfold bracketLexeme
    split <;> simp [quotedName, spelled]
  · simp [stringLiteral, spelled]
  · rename_i h
    exact number_raw_ne_nil h
  · exact wordLexeme_raw_ne_nil c cs
  · simp [skipped]

theorem length_rest_lt (backslash : Bool) (c : Char) (cs : List Char) :
    (lexeme backslash c cs).2.length < (c :: cs).length := by
  have h := congrArg List.length (lexeme_raw_rest backslash c cs)
  have := List.length_pos_iff.2 (raw_ne_nil backslash c cs)
  simp only [List.length_append] at h
  omega

/-- **Pieces** of a text. -/
def lexemes (backslash : Bool) : List Char → List Lexeme
  | [] => []
  | c :: cs => (lexeme backslash c cs).1 :: lexemes backslash (lexeme backslash c cs).2
termination_by cs => cs.length
decreasing_by exact length_rest_lt backslash c cs

theorem flatMap_raw_lexemes (backslash : Bool) (cs : List Char) :
    (lexemes backslash cs).flatMap Lexeme.raw = cs := by
  fun_induction lexemes backslash cs with
  | case1 => rfl
  | case2 c cs ih => simp [ih, lexeme_raw_rest]

/-! ## Tokens -/

/-- The line after the text, if it starts on `line`. -/
def lineAfter (line : Nat) (text : List Char) : Nat :=
  line + text.count '\n'

/-- Tokens of pieces that start on `line`, and the end of the text. -/
def placeTokens (line : Nat) : List Lexeme → List Placed
  | [] => [⟨.endOfText, line⟩]
  | l :: ls =>
    let rest := placeTokens (lineAfter line l.raw) ls
    match l.token with
    | some t => ⟨t, line⟩ :: rest
    | none => rest

/-- **Tokens with lines**; the last one is the end of the text, and the only one. -/
def tokens (backslash : Bool) (text : String) : List Placed :=
  placeTokens 1 (lexemes backslash text.toList)

theorem tokens_ofList (backslash : Bool) (cs : List Char) :
    tokens backslash (.ofList cs) = placeTokens 1 (lexemes backslash cs) := by
  rw [tokens, String.toList_ofList]

/-- A name that reads back as one bare identifier. -/
def isPlainIdentifier (name : String) : Bool :=
  (tokens false name).map (·.token) = [.ident name, .endOfText]

end DdlGraph.Sql
