import DdlGraph.Proofs.Successors

/-!
# Reading undoes writing

A name that is written in front of any text is one piece of the longer text, and so is each literal
of a list. So the tokens of the longer text are those of the name or of the list, and then those of
the text, as many lines further down as were written.

* `tokens_of_lexemes`: tokens of a text that is cut between two pieces;
* `lexemes_literals`: the pieces of a list of literals;
* `tokens_quote_stringList`: names and lists of literals in front of any text.
-/

namespace DdlGraph.Sql

/-! ## Tokens of pieces -/

theorem dropLast_placeTokens_token (n : Nat) (ls : List Lexeme) :
    (placeTokens n ls).dropLast.map (·.token) = ls.filterMap Lexeme.token := by
  rw [List.map_dropLast, placeTokens_tokens, List.dropLast_concat]

/-- **Tokens of a text in two parts** that no piece joins. -/
theorem tokens_of_lexemes {b : Bool} {text rest : String} {ls : List Lexeme}
    (h : lexemes b (text.toList ++ rest.toList) = ls ++ lexemes b rest.toList) :
    tokens b (text ++ rest) =
      (placeTokens 1 ls).dropLast ++ relined (· + text.toList.count '\n') (tokens b rest) := by
  have hraw : ls.flatMap Lexeme.raw = text.toList := by
    have hall := flatMap_raw_lexemes b (text.toList ++ rest.toList)
    rw [h, List.flatMap_append, flatMap_raw_lexemes] at hall
    exact List.append_cancel_right hall
  have hshift : (text.toList.count '\n' + ·) = (· + text.toList.count '\n') :=
    funext fun n => Nat.add_comm _ n
  unfold tokens
  rw [String.toList_append, h, placeTokens_append, hraw, lineAfter, Nat.add_comm, placeTokens_shift,
    hshift]

/-! ## Lists of literals -/

/-- The pieces of a comma and the blank behind it. -/
def commaPieces : List Lexeme :=
  [⟨[','], some .comma⟩, ⟨[' '], none⟩]

/-- The piece of a literal. -/
def literalPiece (dialect : Dialect) (value : String) : Lexeme :=
  ⟨(Ddl.stringLiteral dialect value).toList, some (.str value)⟩

/-- The pieces of literals with commas between them. -/
def literalPieces (dialect : Dialect) (values : List String) : List Lexeme :=
  commaPieces.intercalate (values.map fun v => [literalPiece dialect v])

theorem lexemes_mark {b : Bool} {c : Char} {t : Token} (h : punctuation? c = some t)
    (cs : List Char) : lexemes b (c :: cs) = ⟨[c], some t⟩ :: lexemes b cs := by
  rw [lexemes, lexeme_mark h]
  rfl

/-- A blank in front of a text that begins with none is a piece. -/
theorem lexemes_blank {b : Bool} {cs : List Char} (h : ∀ c ∈ cs.head?, Text.isBlank c = false) :
    lexemes b (' ' :: cs) = ⟨[' '], none⟩ :: lexemes b cs := by
  have hrun : cs.takeWhile Text.isBlank = [] ∧ cs.dropWhile Text.isBlank = cs :=
    takeWhile_all (rfl : [].dropWhile Text.isBlank = []) h
  rw [lexemes, lexeme_blank (by decide), hrun.1, hrun.2]
  rfl

/-- Every part but the first one has a separator in front of it. -/
theorem intercalate_eq_append {α : Type} (separator as : List α) (rest : List (List α)) :
    separator.intercalate (as :: rest) = as ++ rest.flatMap (separator ++ ·) := by
  induction rest generalizing as with
  | nil => rw [List.intercalate_singleton, List.flatMap_nil, List.append_nil]
  | cons bs rest ih =>
    rw [List.intercalate_cons_cons, ih, List.flatMap_cons, List.append_assoc, List.append_assoc]

/-- What stands behind the first literal of a list in parentheses. -/
def behindLiteral (dialect : Dialect) (values : List String) (rest : List Char) : List Char :=
  values.flatMap (fun v => [',', ' '] ++ (Ddl.stringLiteral dialect v).toList) ++ ')' :: rest

theorem behindLiteral_cons (dialect : Dialect) (v : String) (values : List String)
    (rest : List Char) : behindLiteral dialect (v :: values) rest =
      ',' :: ' ' :: ((Ddl.stringLiteral dialect v).toList ++ behindLiteral dialect values rest) := by
  unfold behindLiteral
  rw [List.flatMap_cons, List.append_assoc, List.append_assoc]
  rfl

section
variable (dialect : Dialect) (value : String) (values : List String) (rest : List Char)

/-- A literal of a list is one piece. -/
theorem lexemes_literal :
    lexemes dialect.escapesBackslash
        ((Ddl.stringLiteral dialect value).toList ++ behindLiteral dialect values rest) =
      literalPiece dialect value ::
        lexemes dialect.escapesBackslash (behindLiteral dialect values rest) := by
  refine lexemes_stringLiteral (fun _ => rfl) ?_
  cases values with
  | nil => rintro _ ⟨⟩; decide
  | cons v values => rintro _ ⟨⟩; decide

/-- The literals behind the first one, each with its comma. -/
theorem lexemes_behindLiteral :
    lexemes dialect.escapesBackslash (behindLiteral dialect values rest) =
      values.flatMap (fun v => commaPieces ++ [literalPiece dialect v]) ++
        lexemes dialect.escapesBackslash (')' :: rest) := by
  induction values with
  | nil => rfl
  | cons v values ih =>
    have hblank : ∀ c ∈ ((Ddl.stringLiteral dialect v).toList ++
        behindLiteral dialect values rest).head?, Text.isBlank c = false := by
      unfold Ddl.stringLiteral
      dsimp only
      rw [String.toList_ofList]
      rintro c ⟨⟩
      decide
    rw [behindLiteral_cons, lexemes_mark (t := .comma) rfl, lexemes_blank hblank,
      lexemes_literal, ih]
    rfl

/-- **Literals with commas between them**, in front of a parenthesis. -/
theorem lexemes_literals :
    lexemes dialect.escapesBackslash ((Ddl.stringList dialect values).toList ++ ')' :: rest) =
      literalPieces dialect values ++ lexemes dialect.escapesBackslash (')' :: rest) := by
  unfold Ddl.stringList Text.join literalPieces
  rw [String.toList_intercalate, List.map_map]
  cases values with
  | nil => rfl
  | cons v values =>
    rw [List.map_cons, List.map_cons, intercalate_eq_append, intercalate_eq_append,
      List.flatMap_map, List.flatMap_map, List.append_assoc]
    exact (lexemes_literal dialect v values rest).trans
      (congrArg (literalPiece dialect v :: ·) (lexemes_behindLiteral dialect values rest))

end

theorem filterMap_literalPieces (dialect : Dialect) (values : List String) :
    (literalPieces dialect values).filterMap Lexeme.token =
      [Token.comma].intercalate (values.map fun v => [.str v]) := by
  unfold literalPieces
  cases values with
  | nil => rfl
  | cons v values =>
    rw [List.map_cons, List.map_cons, intercalate_eq_append, intercalate_eq_append,
      List.filterMap_append, List.flatMap_map, List.flatMap_map, List.filterMap_flatMap]
    rfl

/-! ## Names and lists in front of a text -/

/-- **A name in front of a text** that does not go on it is one token, which stands for the name;
the tokens of the text follow. **A list of literals** in parentheses is just these literals, with
commas between them, read with the escapes of the dialect that it is written for. -/
theorem tokens_quote_stringList :
    (∀ (s : Settings) (b : Bool) (name rest : String),
      (∀ c ∈ rest.toList.head?, c ≠ s.dialect.quoteMark ∧ c ≠ '\'' ∧ c ≠ '_' ∧ c ≠ '$' ∧
        Text.isAlnum c = false) →
      ∃ t, t.nameText? = some name ∧ tokens b (Ddl.quote s name ++ rest) =
        ⟨t, 1⟩ :: relined (· + (Ddl.quote s name).toList.count '\n') (tokens b rest)) ∧
    ∀ (dialect : Dialect) (values : List String) (rest : String), ∃ list : Input,
      list.map (·.token) =
        .lparen :: ([Token.comma].intercalate (values.map fun v => [.str v]) ++ [.rparen]) ∧
      tokens (dialect = .mysql) ("(" ++ Ddl.stringList dialect values ++ ")" ++ rest) =
        list ++ relined (· + (Ddl.stringList dialect values).toList.count '\n')
          (tokens (dialect = .mysql) rest) := by
  constructor
  · intro s b name rest h
    have hword : EndsWord rest.toList := by
      intro c hc
      obtain ⟨-, hstring, hunder, hdollar, halnum⟩ := h c hc
      refine ⟨?_, hstring⟩
      unfold isWordPart
      rw [halnum, beq_eq_false_iff_ne.2 hunder, beq_eq_false_iff_ne.2 hdollar]
      rfl
    have hpieces : lexemes b ((Ddl.quote s name).toList ++ rest.toList) =
        [⟨(Ddl.quote s name).toList, some (nameToken s name)⟩] ++ lexemes b rest.toList :=
      lexemes_quote s name b (fun c hc => (h c hc).1) hword
    exact ⟨nameToken s name, nameText?_nameToken s name, tokens_of_lexemes hpieces⟩
  · intro dialect values rest
    have hescapes : decide (dialect = .mysql) = dialect.escapesBackslash := by
      cases dialect <;> rfl
    rw [hescapes]
    have hpieces : lexemes dialect.escapesBackslash
        (("(" ++ Ddl.stringList dialect values ++ ")").toList ++ rest.toList) =
          (⟨['('], some .lparen⟩ :: (literalPieces dialect values ++ [⟨[')'], some .rparen⟩])) ++
            lexemes dialect.escapesBackslash rest.toList := by
      have hopen : "(".toList = ['('] := rfl
      have hclose : ")".toList = [')'] := rfl
      rw [String.toList_append, String.toList_append, hopen, hclose, List.append_assoc,
        List.append_assoc, List.singleton_append, List.singleton_append,
        lexemes_mark (t := .lparen) rfl, lexemes_literals, lexemes_mark (t := .rparen) rfl,
        List.cons_append, List.append_assoc]
      rfl
    have hcount : ("(" ++ Ddl.stringList dialect values ++ ")").toList.count '\n' =
        (Ddl.stringList dialect values).toList.count '\n' := by
      have hopen : "(".toList.count '\n' = 0 := rfl
      have hclose : ")".toList.count '\n' = 0 := rfl
      rw [String.toList_append, String.toList_append, List.count_append, List.count_append, hopen,
        hclose, Nat.zero_add, Nat.add_zero]
    refine ⟨_, ?_, hcount ▸ tokens_of_lexemes hpieces⟩
    rw [dropLast_placeTokens_token, List.filterMap_cons, List.filterMap_append,
      filterMap_literalPieces]
    rfl

/-- A title of two words in front of its type, and values with an apostrophe and a backslash. -/
theorem tokens_quote_stringList_size :
    (∀ c ∈ " INT".toList.head?, c ≠ Dialect.quoteMark .mysql ∧ c ≠ '\'' ∧ c ≠ '_' ∧ c ≠ '$' ∧
      Text.isAlnum c = false) ∧
    (∃ t : Token, t.nameText? = some "tall `size`" ∧
      tokens true (Ddl.quote { dialect := .mysql } "tall `size`" ++ " INT") =
        [⟨t, 1⟩, ⟨.ident "INT", 1⟩, ⟨.endOfText, 1⟩]) ∧
    ∃ list : Input, list.map (·.token) =
        [.lparen, .str "it's", .comma, .str "a\\b", .comma, .str "", .rparen] ∧
      tokens true ("(" ++ Ddl.stringList .mysql ["it's", "a\\b", ""] ++ ")" ++ ",") =
        list ++ [⟨.comma, 1⟩, ⟨.endOfText, 1⟩] := by
  have hrest : ∀ c ∈ " INT".toList.head?, c ≠ Dialect.quoteMark .mysql ∧ c ≠ '\'' ∧ c ≠ '_' ∧
      c ≠ '$' ∧ Text.isAlnum c = false := by
    rintro c ⟨⟩
    decide
  have hname : relined (· + (Ddl.quote { dialect := .mysql } "tall `size`").toList.count '\n')
      (tokens true " INT") = [⟨.ident "INT", 1⟩, ⟨.endOfText, 1⟩] := by
    decide +kernel
  have hlist : relined (· + (Ddl.stringList .mysql ["it's", "a\\b", ""]).toList.count '\n')
      (tokens (Dialect.mysql = .mysql) ",") = [⟨.comma, 1⟩, ⟨.endOfText, 1⟩] := by
    decide +kernel
  refine ⟨hrest, ?_, ?_⟩
  · rw [← hname]
    exact tokens_quote_stringList.1 { dialect := .mysql } true "tall `size`" " INT" hrest
  · rw [← hlist]
    exact tokens_quote_stringList.2 .mysql ["it's", "a\\b", ""] ","

end DdlGraph.Sql
