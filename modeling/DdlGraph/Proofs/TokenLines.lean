import DdlGraph.Sql.Token.Lexer
import Mathlib.Data.List.Forall2
import Mathlib.Logic.Function.Iterate

/-!
# Lines of tokens

A token stands on the line that its first character is on. A reader that goes past one character
after another, and counts a line at each line break (`LineReader.advance`), is on a line that only
depends on how far it has come, and not on whether it goes through a comment, a string, a name or a
number (`iterate_advance`). So it is enough to know where the first character of each token stands
(`startsFrom`), and that nothing is left out before it.

* `beginsWith_lexeme`: the first character of a piece is one that its token begins with;
* `tokens_lined`: tokens stand in their order on the lines of their first characters, and the end of
  the text comes last and once.
-/

namespace DdlGraph.Sql

/-! ## Counting lines -/

/-- Where a reader is: the line, and the text that is left. -/
structure LineReader where
  line : Nat
  rest : List Char

/-- The reader goes past one character. Behind a line break a new line begins. -/
def LineReader.advance : LineReader → LineReader
  | ⟨line, []⟩ => ⟨line, []⟩
  | ⟨line, c :: cs⟩ => ⟨if c = '\n' then line + 1 else line, cs⟩

/-- **What is counted** are the line breaks that were passed, however they were. -/
theorem iterate_advance (n line : Nat) (text : List Char) :
    LineReader.advance^[n] ⟨line, text⟩ = ⟨lineAfter line (text.take n), text.drop n⟩ := by
  induction n generalizing line text with
  | zero => rfl
  | succ n ih =>
    rw [Function.iterate_succ_apply]
    cases text with
    | nil =>
      rw [LineReader.advance, ih, List.take_nil, List.take_nil, List.drop_nil, List.drop_nil]
    | cons c cs =>
      rw [LineReader.advance, ih, List.take_succ_cons, List.drop_succ_cons]
      by_cases hc : c = '\n'
      · simp [lineAfter, hc, Nat.add_assoc, Nat.add_comm 1]
      · simp [lineAfter, hc]

theorem lineAfter_le (line : Nat) (text : List Char) : line ≤ lineAfter line text :=
  Nat.le_add_right _ _

theorem lineAfter_lineAfter (line : Nat) (front rest : List Char) :
    lineAfter (lineAfter line front) rest = lineAfter line (front ++ rest) := by
  simp [lineAfter, Nat.add_assoc]

/-! ## First characters -/

/-- **The token can be written with this character in front.** -/
def Token.BeginsWith : Token → Char → Prop
  | .keyword _, c => isWordStart c = true
  | .ident name, c => isWordStart c = true ∧ name.toList.head? = some c
  | .quotedIdent _, c => c = '"' ∨ c = '`' ∨ c = '['
  | .str _, c => c = '\'' ∨ c = 'e' ∨ c = 'E'
  | .num digits, c => (c = '-' ∨ c.isDigit = true) ∧ digits.toList.head? = some c
  | .lparen, c => c = '('
  | .rparen, c => c = ')'
  | .comma, c => c = ','
  | .semicolon, c => c = ';'
  | .dot, c => c = '.'
  | .arraySuffix, c => c = '['
  | .endOfText, _ => False

section
variable {t : Token} {c : Char} {cs : List Char}

theorem beginsWith_punctuation (h : punctuation? c = some t) : t.BeginsWith c := by
  unfold punctuation? at h
  split at h <;> cases h <;> rfl

theorem beginsWith_ofWord (hc : isWordStart c = true)
    (h : some (Token.ofWord (.ofList (c :: cs))) = some t) : t.BeginsWith c := by
  obtain rfl := Option.some.inj h
  unfold Token.ofWord
  split
  · exact hc
  · exact ⟨hc, by rw [String.toList_ofList]; rfl⟩

theorem beginsWith_wordLexeme (hc : isWordStart c = true)
    (h : (wordLexeme c cs).1.token = some t) : t.BeginsWith c := by
  unfold wordLexeme at h
  split at h
  · dsimp only at h
    split at h
    · rename_i he
      obtain rfl := Option.some.inj h
      rcases he with he | he
      · exact .inr (.inl (List.cons.inj he).1)
      · exact .inr (.inr (List.cons.inj he).1)
    · exact beginsWith_ofWord hc h
  · exact beginsWith_ofWord hc h

theorem beginsWith_minusLexeme (h : (minusLexeme cs).1.token = some t) : t.BeginsWith '-' := by
  unfold minusLexeme at h
  split at h
  · split at h
    · cases h
    · split at h
      · obtain rfl := Option.some.inj h
        exact ⟨.inl rfl, by rw [String.toList_ofList]; rfl⟩
      · cases h
  · cases h

theorem beginsWith_bracketLexeme (h : (bracketLexeme cs).1.token = some t) :
    t.BeginsWith '[' := by
  unfold bracketLexeme at h
  split at h
  · obtain rfl := Option.some.inj h
    rfl
  · obtain rfl := Option.some.inj h
    exact .inr (.inr rfl)

theorem head?_number (hc : c.isDigit = true) : (number (c :: cs)).1.head? = some c := by
  unfold number
  split <;> simp [hc]

/-- **The first character of a piece** is one that its token begins with. -/
theorem beginsWith_lexeme {b : Bool} (h : (lexeme b c cs).1.token = some t) : t.BeginsWith c := by
  unfold lexeme at h
  split at h
  · cases h
  split at h
  · rename_i hc
    exact hc ▸ beginsWith_minusLexeme h
  split at h
  · cases h
  split at h
  · unfold slashLexeme at h
    split at h <;> cases h
  split at h
  · rename_i hp
    obtain rfl := Option.some.inj h
    exact beginsWith_punctuation hp
  split at h
  · rename_i hc
    obtain rfl := Option.some.inj h
    exact hc.imp_right .inl
  split at h
  · rename_i hc
    exact hc ▸ beginsWith_bracketLexeme h
  split at h
  · rename_i hc
    obtain rfl := Option.some.inj h
    exact .inl hc
  split at h
  · rename_i hc
    obtain rfl := Option.some.inj h
    exact ⟨.inr hc, by rw [String.toList_ofList, head?_number hc]⟩
  split at h
  · rename_i hc
    exact beginsWith_wordLexeme hc h
  · cases h

end

/-! ## Places -/

/-- Where tokens begin, in pieces of which the first one begins at `place`. -/
def startsFrom (place : Nat) : List Lexeme → List Nat
  | [] => []
  | l :: ls =>
    let rest := startsFrom (place + l.raw.length) ls
    if l.token.isSome then place :: rest else rest

/-- **A token stands at its place**: behind the whole pieces that the text has before, at a
character that it begins with, and on the line that a reader has counted when it comes there, which
is one more than the line breaks before. -/
structure StandsAt (b : Bool) (text : List Char) (place : Nat) (p : Placed) : Prop where
  piece : ∃ before l after, lexemes b text = before ++ l :: after ∧
    before.flatMap Lexeme.raw = text.take place ∧ l.token = some p.token
  first : ∃ c cs, text.drop place = c :: cs ∧ p.token.BeginsWith c
  line_eq : p.line = 1 + (text.take place).count '\n'
  counted : LineReader.advance^[place] ⟨1, text⟩ = ⟨p.line, text.drop place⟩

/-- **Tokens on their lines**: one for each of the places, which go forward, and behind them the end
of the text, and nowhere else; the lines do not go back. -/
structure Lined (b : Bool) (text : List Char) (places : List Nat) (ts : List Placed) : Prop where
  tokens_eq : ∃ front, ts = front ++ [⟨.endOfText, 1 + text.count '\n'⟩] ∧
    (∀ p ∈ front, p.token ≠ .endOfText) ∧ List.Forall₂ (StandsAt b text) places front
  forward : places.Pairwise (· < ·)
  lines : (ts.map (·.line)).Pairwise (· ≤ ·)

section
variable {b : Bool} {text : List Char}

theorem raw_ne_nil_of_mem {l : Lexeme} (h : l ∈ lexemes b text) : l.raw ≠ [] := by
  fun_induction lexemes b text with
  | case1 => cases h
  | case2 c cs ih =>
    rcases List.mem_cons.1 h with rfl | h
    · exact raw_ne_nil b c cs
    · exact ih h

theorem le_of_mem_startsFrom {ls : List Lexeme} {place n : Nat} (h : n ∈ startsFrom place ls) :
    place ≤ n := by
  induction ls generalizing place with
  | nil => cases h
  | cons l ls ih =>
    rw [startsFrom] at h
    split at h
    · rcases List.mem_cons.1 h with rfl | h
      · exact Nat.le_refl n
      · exact Nat.le_trans (Nat.le_add_right _ _) (ih h)
    · exact Nat.le_trans (Nat.le_add_right _ _) (ih h)

/-- Places go forward, since no piece is empty. -/
theorem pairwise_startsFrom {ls : List Lexeme} (h : ∀ l ∈ ls, l.raw ≠ []) (place : Nat) :
    (startsFrom place ls).Pairwise (· < ·) := by
  induction ls generalizing place with
  | nil => exact .nil
  | cons l ls ih =>
    obtain ⟨hl, hls⟩ := List.forall_mem_cons.1 h
    rw [startsFrom]
    split
    · refine List.pairwise_cons.2 ⟨fun n hn => ?_, ih hls _⟩
      have hlength := List.length_pos_iff.2 hl
      have := le_of_mem_startsFrom hn
      omega
    · exact ih hls _

theorem le_line_of_mem {ls : List Lexeme} {line : Nat} {p : Placed}
    (h : p ∈ placeTokens line ls) : line ≤ p.line := by
  induction ls generalizing line with
  | nil =>
    obtain rfl := List.mem_singleton.1 h
    exact Nat.le_refl line
  | cons l ls ih =>
    rw [placeTokens] at h
    have hrest (h : p ∈ placeTokens (lineAfter line l.raw) ls) : line ≤ p.line :=
      Nat.le_trans (lineAfter_le line l.raw) (ih h)
    cases htoken : l.token with
    | none =>
      rw [htoken] at h
      exact hrest h
    | some t =>
      rw [htoken] at h
      rcases List.mem_cons.1 h with rfl | h
      · exact Nat.le_refl line
      · exact hrest h

theorem pairwise_line (line : Nat) (ls : List Lexeme) :
    ((placeTokens line ls).map (·.line)).Pairwise (· ≤ ·) := by
  induction ls generalizing line with
  | nil => exact List.pairwise_singleton _ _
  | cons l ls ih =>
    rw [placeTokens]
    cases htoken : l.token with
    | none => exact ih _
    | some t =>
      refine List.pairwise_cons.2 ⟨fun n hn => ?_, ih _⟩
      obtain ⟨p, hp, rfl⟩ := List.mem_map.1 hn
      exact Nat.le_trans (lineAfter_le line l.raw) (le_line_of_mem hp)

theorem StandsAt.ne_endOfText {place : Nat} {p : Placed} (h : StandsAt b text place p) :
    p.token ≠ .endOfText := by
  obtain ⟨c, cs, -, hbegins⟩ := h.first
  intro hend
  rw [hend] at hbegins
  exact hbegins

/-- A token that the text goes on with behind whole pieces. -/
theorem standsAt_behind {before : List Lexeme} {c : Char} {cs : List Char} {t : Token}
    (hpieces : lexemes b text = before ++ lexemes b (c :: cs))
    (htext : text = before.flatMap Lexeme.raw ++ c :: cs)
    (ht : (lexeme b c cs).1.token = some t) :
    StandsAt b text (before.flatMap Lexeme.raw).length
      ⟨t, lineAfter 1 (before.flatMap Lexeme.raw)⟩ := by
  have htake : text.take (before.flatMap Lexeme.raw).length = before.flatMap Lexeme.raw := by
    rw [htext, List.take_left]
  have hdrop : text.drop (before.flatMap Lexeme.raw).length = c :: cs := by
    rw [htext, List.drop_left]
  rw [lexemes] at hpieces
  refine ⟨⟨_, _, _, hpieces, htake.symm, ht⟩, ⟨c, cs, hdrop, beginsWith_lexeme ht⟩, ?_, ?_⟩
  · rw [htake]
    rfl
  · rw [iterate_advance, htake]

/-- **Reading on behind whole pieces** gives the tokens of what is left, each at its place. -/
theorem placeTokens_standAt (before : List Lexeme) {cs : List Char}
    (hpieces : lexemes b text = before ++ lexemes b cs)
    (htext : text = before.flatMap Lexeme.raw ++ cs) :
    ∃ front, placeTokens (lineAfter 1 (before.flatMap Lexeme.raw)) (lexemes b cs) =
        front ++ [⟨.endOfText, 1 + text.count '\n'⟩] ∧
      (∀ p ∈ front, p.token ≠ .endOfText) ∧
      List.Forall₂ (StandsAt b text) (startsFrom (before.flatMap Lexeme.raw).length (lexemes b cs))
        front := by
  fun_induction lexemes b cs generalizing before with
  | case1 =>
    refine ⟨[], ?_, List.forall_mem_nil _, .nil⟩
    rw [placeTokens, List.nil_append, htext, List.append_nil]
    rfl
  | case2 c cs ih =>
    have hstands {t : Token} := @standsAt_behind b text before c cs t
      (by rw [hpieces, ← lexemes]) htext
    have hflat : (before ++ [(lexeme b c cs).1]).flatMap Lexeme.raw =
        before.flatMap Lexeme.raw ++ (lexeme b c cs).1.raw := by simp
    obtain ⟨front, heq, hend, hfront⟩ := ih (before ++ [(lexeme b c cs).1])
      (by rw [hpieces]; simp) (by rw [hflat, List.append_assoc, lexeme_raw_rest, htext])
    rw [hflat, ← lineAfter_lineAfter] at heq
    rw [hflat, List.length_append] at hfront
    rw [placeTokens, startsFrom, heq]
    cases htoken : (lexeme b c cs).1.token with
    | none => exact ⟨front, rfl, hend, hfront⟩
    | some t =>
      have hhead := hstands htoken
      exact ⟨_ :: front, rfl, List.forall_mem_cons.2 ⟨hhead.ne_endOfText, hend⟩,
        .cons hhead hfront⟩

end

/-- **Tokens stand on their lines.** Whatever the text is and however backslashes are read, the
lines of its tokens do not go back, and each is one more than the number of line breaks before the
first character of the token, through all comments, strings and names, closed or not. The end of the
text is the last token and no other, on the line behind all line breaks. -/
theorem tokens_lined (b : Bool) (text : String) :
    Lined b text.toList (startsFrom 0 (lexemes b text.toList)) (tokens b text) := by
  refine ⟨placeTokens_standAt [] rfl rfl, ?_, pairwise_line 1 _⟩
  exact pairwise_startsFrom (fun l hl => raw_ne_nil_of_mem hl) 0

/-- A comment and a string that go on in the next line, and a name that nothing closes. -/
example : tokens false "/* a\n*/ 'b\nc' d [e\n" =
    [⟨.str "b\nc", 2⟩, ⟨.ident "d", 3⟩, ⟨.quotedIdent "e\n", 3⟩, ⟨.endOfText, 4⟩] := by
  decide +kernel

end DdlGraph.Sql
