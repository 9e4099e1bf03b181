import DdlGraph.Ddl.Literal
import DdlGraph.Proofs.Lexing

/-!
# Names and literals read back

What is written for a name is one token that stands for the name, between quote marks or bare
(`reads_quote`); what is written for a string is one token with the string (`reads_stringLiteral`).

* `delimited_doubled`: doubling a mark and reading up to it are inverse;
* `lexeme_of_plainIdentifier`: a plain identifier is one word;
* `lexemes_quote`, `lexemes_stringLiteral`: the pieces of a text that begins so;
* `reads_intercalate`: a list with something between its parts.
-/

namespace DdlGraph.Sql

open Ddl (doubled)

/-! ## Delimited text -/

theorem doubled_cons (close c : Char) (cs : List Char) :
    doubled close (c :: cs) =
      (if c = close then [close, close] else [c]) ++ doubled close cs :=
  rfl

/-- **Doubling a mark and reading up to it** are inverse, as long as no backslash escapes. -/
theorem delimited_doubled {close : Char} {b : Bool} (cs : List Char)
    (hb : b = false ∨ '\\' ∉ cs) {rest : List Char}
    (hr : ∀ c ∈ rest.head?, c ≠ close) :
    (delimited close b (doubled close cs ++ close :: rest)).text = cs ∧
      (delimited close b (doubled close cs ++ close :: rest)).rest = rest := by
  induction cs with
  | nil =>
    have hnil : doubled close [] ++ close :: rest = close :: rest := rfl
    rw [hnil]
    cases rest with
    | nil =>
      rw [delimited, if_pos (.inl rfl)]
      exact ⟨rfl, rfl⟩
    | cons d ds =>
      rw [delimited, if_pos rfl, if_neg (hr d rfl)]
      exact ⟨rfl, rfl⟩
  | cons c cs ih =>
    obtain ⟨ht, hrest⟩ := ih (hb.imp_right fun h hm => h (.tail _ hm))
    rw [doubled_cons]
    by_cases hc : c = close
    · rw [if_pos hc, hc, List.append_assoc, List.cons_append, List.cons_append, List.nil_append,
        delimited, if_pos rfl, if_pos rfl]
      exact ⟨congrArg (close :: ·) ht, hrest⟩
    · have hesc : ¬(c = '\\' ∧ b = true) := by
        rintro ⟨rfl, hb'⟩
        rcases hb with hb | hb
        · rw [hb] at hb'
          cases hb'
        · exact hb (.head _)
      obtain ⟨d, ds, hd⟩ : ∃ d ds, doubled close cs ++ close :: rest = d :: ds :=
        List.exists_cons_of_ne_nil (by simp)
      rw [if_neg hc, List.append_assoc, List.singleton_append]
      rw [hd] at ht hrest ⊢
      rw [delimited, if_neg hc, if_neg hesc]
      exact ⟨congrArg (c :: ·) ht, hrest⟩

/-- A piece that leaves `rest` is what stands before it. -/
theorem lexemes_of_rest {b : Bool} {c : Char} {cs rest : List Char} {t : Token}
    (ht : (lexeme b c (cs ++ rest)).1.token = some t) (hr : (lexeme b c (cs ++ rest)).2 = rest) :
    lexemes b (c :: cs ++ rest) = ⟨c :: cs, some t⟩ :: lexemes b rest := by
  have hraw := lexeme_raw_rest b c (cs ++ rest)
  rw [hr, ← List.cons_append] at hraw
  have hpiece : (lexeme b c (cs ++ rest)).1 = ⟨c :: cs, some t⟩ := by
    rw [← List.append_cancel_right hraw, ← ht]
  rw [List.cons_append, lexemes, hpiece, hr]

/-- One piece in front of `rest` spells its token. -/
theorem tokensOf_of_lexemes {b : Bool} {xs rest : List Char} {l : Lexeme}
    (h : lexemes b (xs ++ rest) = l :: lexemes b rest) :
    tokensOf b (xs ++ rest) = l.token.toList ++ tokensOf b rest := by
  unfold tokensOf
  rw [h, List.filterMap_cons]
  cases l.token <;> rfl

/-- **A name between quote marks** is one piece, unless another mark follows. -/
theorem lexemes_quotedName (dialect : Dialect) (name : String) (b : Bool) {rest : List Char}
    (hr : ∀ c ∈ rest.head?, c ≠ dialect.quoteMark) :
    lexemes b ((Ddl.quotedName dialect name).toList ++ rest) =
      ⟨(Ddl.quotedName dialect name).toList, some (.quotedIdent name)⟩ :: lexemes b rest := by
  have hl : ∀ cs, lexeme b dialect.quoteMark cs =
      quotedName dialect.quoteMark dialect.quoteMark cs := by
    intro cs
    cases dialect <;> rfl
  obtain ⟨ht, hrest⟩ := delimited_doubled (b := false) name.toList (.inl rfl) hr
  unfold Ddl.quotedName
  dsimp only
  rw [String.toList_ofList, List.cons_append]
  refine lexemes_of_rest ?_ ?_ <;> rw [hl, List.append_assoc, List.singleton_append]
  · unfold quotedName
    dsimp only [spelled]
    rw [ht, String.ofList_toList]
  · exact hrest

theorem reads_quotedName (dialect : Dialect) (name : String) (b : Bool) :
    Reads b (Ddl.quotedName dialect name).toList [.quotedIdent name] := by
  intro rest hs
  refine tokensOf_of_lexemes (lexemes_quotedName dialect name b ?_)
  rintro c hc rfl
  have hm := hs _ hc
  cases dialect <;> exact absurd hm (by decide)

/-- A text without the mark is not changed by doubling it. -/
theorem doubled_of_not_mem {c : Char} {cs : List Char} (h : c ∉ cs) : doubled c cs = cs := by
  induction cs with
  | nil => rfl
  | cons d cs ih =>
    rw [List.mem_cons, not_or] at h
    rw [doubled_cons, if_neg fun hd => h.1 hd.symm, ih h.2]
    rfl

theorem mem_doubled {c d : Char} {cs : List Char} : d ∈ doubled c cs ↔ d ∈ cs := by
  unfold doubled
  rw [List.mem_flatMap]
  constructor
  · rintro ⟨e, he, hd⟩
    split at hd
    · rename_i hec
      simp only [List.mem_cons, List.not_mem_nil, or_false, or_self] at hd
      rw [hd, ← hec]
      exact he
    · exact List.mem_singleton.1 hd ▸ he
  · intro hd
    refine ⟨d, hd, ?_⟩
    split
    · rename_i hdc
      exact hdc ▸ .head _
    · exact .head _

/-- **Escaping and reading escapes** are inverse. -/
theorem delimited_escaped (cs : List Char) {rest : List Char} (hr : ∀ c ∈ rest.head?, c ≠ '\'') :
    (delimited '\'' true (doubled '\\' (doubled '\'' cs) ++ '\'' :: rest)).text = cs ∧
      (delimited '\'' true (doubled '\\' (doubled '\'' cs) ++ '\'' :: rest)).rest = rest := by
  induction cs with
  | nil => exact delimited_doubled [] (.inr List.not_mem_nil) hr
  | cons c cs ih =>
    obtain ⟨ht, hrest⟩ := ih
    rw [doubled_cons, Ddl.doubled_append, List.append_assoc]
    by_cases hc : c = '\''
    · have hmark : doubled '\\' (if c = '\'' then ['\'', '\''] else [c]) = ['\'', '\''] := by
        rw [if_pos hc]
        rfl
      rw [hmark, hc, List.cons_append, List.cons_append, List.nil_append, delimited, if_pos rfl,
        if_pos rfl]
      exact ⟨congrArg ('\'' :: ·) ht, hrest⟩
    · rw [if_neg hc]
      by_cases he : c = '\\'
      · have hmark : doubled '\\' [c] = ['\\', '\\'] := by
          rw [he]
          rfl
        rw [hmark, he, List.cons_append, List.cons_append, List.nil_append, delimited,
          if_neg (by decide), if_pos ⟨rfl, rfl⟩]
        exact ⟨congrArg ('\\' :: ·) ht, hrest⟩
      · have hmark : doubled '\\' [c] = [c] :=
          doubled_of_not_mem fun hm => he (List.mem_singleton.1 hm).symm
        obtain ⟨d, ds, hd⟩ : ∃ d ds, doubled '\\' (doubled '\'' cs) ++ '\'' :: rest = d :: ds :=
          List.exists_cons_of_ne_nil (by simp)
        rw [hmark, List.singleton_append]
        rw [hd] at ht hrest ⊢
        rw [delimited, if_neg hc, if_neg fun h => he h.1]
        exact ⟨congrArg (c :: ·) ht, hrest⟩

/-- What is written between the apostrophes is read back. -/
theorem delimited_literal {dialect : Dialect} {value : String} {b : Bool}
    (h : '\\' ∈ value.toList → dialect.escapesBackslash = b) {rest : List Char}
    (hr : ∀ c ∈ rest.head?, c ≠ '\'') :
    let escaped := if dialect.escapesBackslash then doubled '\\' (doubled '\'' value.toList)
      else doubled '\'' value.toList
    (delimited '\'' b (escaped ++ '\'' :: rest)).text = value.toList ∧
      (delimited '\'' b (escaped ++ '\'' :: rest)).rest = rest := by
  by_cases hm : '\\' ∈ value.toList
  · rw [← h hm]
    cases dialect.escapesBackslash with
    | true => exact delimited_escaped value.toList hr
    | false => exact delimited_doubled value.toList (.inl rfl) hr
  · have hplain : doubled '\\' (doubled '\'' value.toList) = doubled '\'' value.toList :=
      doubled_of_not_mem fun h => hm (mem_doubled.1 h)
    rw [hplain, ite_self]
    exact delimited_doubled value.toList (.inr hm) hr

/-- **A string literal** is one piece unless an apostrophe follows, if reader and writer agree on
backslashes or the string has none. -/
theorem lexemes_stringLiteral {dialect : Dialect} {value : String} {b : Bool}
    (h : '\\' ∈ value.toList → dialect.escapesBackslash = b) {rest : List Char}
    (hr : ∀ c ∈ rest.head?, c ≠ '\'') :
    lexemes b ((Ddl.stringLiteral dialect value).toList ++ rest) =
      ⟨(Ddl.stringLiteral dialect value).toList, some (.str value)⟩ :: lexemes b rest := by
  have hl : ∀ cs, lexeme b '\'' cs = stringLiteral ['\''] b cs := fun cs => rfl
  obtain ⟨ht, hrest⟩ := delimited_literal h hr
  unfold Ddl.stringLiteral
  dsimp only
  rw [String.toList_ofList, List.cons_append]
  refine lexemes_of_rest ?_ ?_ <;> rw [hl, List.append_assoc, List.singleton_append]
  · unfold stringLiteral
    dsimp only [spelled]
    rw [ht, String.ofList_toList]
  · exact hrest

/-- **String literal**: it reads back as its string, if reader and writer agree on backslashes, or
the string has none. -/
theorem reads_stringLiteral {dialect : Dialect} {value : String} {b : Bool}
    (h : '\\' ∈ value.toList → dialect.escapesBackslash = b) :
    Reads b (Ddl.stringLiteral dialect value).toList [.str value] := by
  intro rest hs
  refine tokensOf_of_lexemes (lexemes_stringLiteral h ?_)
  rintro c hc rfl
  exact absurd (hs _ hc) (by decide)

/-! ## Plain identifiers -/

/-- The piece of an identifier is the identifier. -/
theorem raw_of_ident {b : Bool} {c : Char} {cs : List Char} {name : String}
    (h : (lexeme b c cs).1.token = some (.ident name)) :
    (lexeme b c cs).1.raw = name.toList ∧ ∀ b' more, lexeme b' c more = wordLexeme c more := by
  have hw : (lexeme b c cs).1.isWord = true := by
    unfold Lexeme.isWord
    rw [h]
  rcases isWord_cases hw with hword | hnumber | ⟨hm, hminus⟩
  · refine ⟨?_, hword⟩
    have spelled_raw : ∀ w rest, (spelled (.ofWord (.ofList w)) w rest).1.token =
        some (.ident name) → w = name.toList := by
      intro w rest hw
      have hw' : Token.ofWord (.ofList w) = .ident name := Option.some.inj hw
      unfold Token.ofWord at hw'
      split at hw'
      · cases hw'
      · rw [← Token.ident.inj hw', String.toList_ofList]
    rw [hword] at h ⊢
    cases hc : cs.dropWhile isWordPart with
    | nil =>
      rw [wordLexeme_of_no_apostrophe (by simp [hc])] at h ⊢
      exact spelled_raw _ _ h
    | cons d ds =>
      by_cases hq : d = '\''
      · subst hq
        rw [wordLexeme_of_apostrophe hc] at h ⊢
        split at h
        · cases h
        · rename_i he
          rw [if_neg he]
          exact spelled_raw _ _ h
      · have hn : ∀ rest, cs.dropWhile isWordPart ≠ '\'' :: rest := by
          rw [hc]
          exact fun rest he => hq (List.cons.inj he).1
        rw [wordLexeme_of_no_apostrophe hn] at h ⊢
        exact spelled_raw _ _ h
  · rw [hnumber] at h
    cases h
  · obtain ⟨d, ds, rfl, -, hd⟩ := isWord_minusLexeme hm
    rw [hminus, hd] at h
    cases h

/-- An identifier is no longer than the text it stands in. -/
theorem length_ident_le {b : Bool} {cs : List Char} {name : String}
    (h : .ident name ∈ tokensOf b cs) : name.toList.length ≤ cs.length := by
  unfold tokensOf at h
  fun_induction lexemes b cs with
  | case1 => cases h
  | case2 c cs ih =>
    have hlen := congrArg List.length (lexeme_raw_rest b c cs)
    rw [List.length_append] at hlen
    rw [List.filterMap_cons] at h
    cases ht : (lexeme b c cs).1.token with
    | none =>
      rw [ht] at h
      have hle := ih h
      omega
    | some t =>
      rw [ht] at h
      rcases List.mem_cons.1 h with rfl | h
      · rw [← (raw_of_ident ht).1]
        omega
      · have hle := ih h
        omega

/-- **A plain identifier is one word.** -/
theorem lexeme_of_plainIdentifier {name : String} (h : isPlainIdentifier name = true) :
    ∃ c cs l, name.toList = c :: cs ∧ l.token = some (.ident name) ∧
      ∀ b, lexeme b c cs = (l, []) := by
  unfold isPlainIdentifier at h
  rw [decide_eq_true_eq, tokens_map_token] at h
  have happ : tokensOf false name.toList ++ [.endOfText] = [.ident name] ++ [.endOfText] := h
  have htokens := List.append_cancel_right happ
  cases hn : name.toList with
  | nil =>
    rw [hn, tokensOf_nil] at htokens
    cases htokens
  | cons c cs =>
    rw [hn, tokensOf_cons] at htokens
    have hlt := length_rest_lt false c cs
    cases ht : (lexeme false c cs).1.token with
    | none =>
      rw [ht] at htokens
      have hmem : .ident name ∈ tokensOf false (lexeme false c cs).2 := by
        have he : tokensOf false (lexeme false c cs).2 = [.ident name] := htokens
        rw [he]
        exact .head _
      have hle := length_ident_le hmem
      rw [hn] at hle
      omega
    | some t =>
      rw [ht] at htokens
      obtain rfl := (List.cons.inj htokens).1
      obtain ⟨hraw, hword⟩ := raw_of_ident ht
      have hrr := lexeme_raw_rest false c cs
      rw [hraw, hn] at hrr
      have hrest : (lexeme false c cs).2 = [] := by
        have hlen := congrArg List.length hrr
        rw [List.length_append] at hlen
        exact List.eq_nil_of_length_eq_zero (by omega)
      refine ⟨c, cs, (lexeme false c cs).1, rfl, ht, fun b => ?_⟩
      rw [hword b, ← hword false]
      exact Prod.ext rfl hrest

/-- **A plain identifier** is one piece, unless what follows goes on it. -/
theorem lexemes_plainIdentifier {name : String} (h : isPlainIdentifier name = true) (b : Bool)
    {rest : List Char} (hr : EndsWord rest) :
    lexemes b (name.toList ++ rest) = ⟨name.toList, some (.ident name)⟩ :: lexemes b rest := by
  obtain ⟨c, cs, l, hn, ht, hl⟩ := lexeme_of_plainIdentifier h
  have hw : l.isWord = true := by
    unfold Lexeme.isWord
    rw [ht]
  have hword : ∀ more, lexeme b c more = wordLexeme c more := by
    have hone : (lexeme b c cs).1.token = some (.ident name) := by rw [hl b, ht]
    exact (raw_of_ident hone).2 b
  have hends := hl b
  rw [hword] at hends
  have happ := wordLexeme_ends hw hends hr
  rw [hn]
  refine lexemes_of_rest ?_ ?_ <;> rw [hword, happ]
  exact ht

theorem reads_plainIdentifier {name : String} (h : isPlainIdentifier name = true) (b : Bool) :
    Reads b name.toList [.ident name] :=
  fun _ hs => tokensOf_of_lexemes (lexemes_plainIdentifier h b hs.endsWord)

/-! ## Names -/

/-- The token that is written for a name. -/
def nameToken (s : Settings) (name : String) : Token :=
  if !s.caseSensitive && isPlainIdentifier name then .ident name else .quotedIdent name

/-- **A name in a text** is one piece, unless what follows goes on it. -/
theorem lexemes_quote (s : Settings) (name : String) (b : Bool) {rest : List Char}
    (hr : ∀ c ∈ rest.head?, c ≠ s.dialect.quoteMark) (hw : EndsWord rest) :
    lexemes b ((Ddl.quote s name).toList ++ rest) =
      ⟨(Ddl.quote s name).toList, some (nameToken s name)⟩ :: lexemes b rest := by
  unfold Ddl.quote nameToken
  split
  · rename_i h
    rw [Bool.and_eq_true] at h
    exact lexemes_plainIdentifier h.2 b hw
  · exact lexemes_quotedName s.dialect name b hr

/-- **Name in a text**: it reads back as its token. -/
theorem reads_quote (s : Settings) (name : String) (b : Bool) :
    Reads b (Ddl.quote s name).toList [nameToken s name] := by
  unfold Ddl.quote nameToken
  split
  · rename_i h
    rw [Bool.and_eq_true] at h
    exact reads_plainIdentifier h.2 b
  · exact reads_quotedName s.dialect name b

theorem nameText?_nameToken (s : Settings) (name : String) :
    (nameToken s name).nameText? = some name := by
  unfold nameToken
  split <;> rfl

theorem nameToken_cases (s : Settings) (name : String) :
    nameToken s name = .ident name ∨ nameToken s name = .quotedIdent name := by
  unfold nameToken
  split
  · exact .inl rfl
  · exact .inr rfl

/-! ## Lists -/

/-- Parts of a text with `separator` between them, which begins with a mark. -/
theorem reads_intercalate {α : Type} {b : Bool} {separator : List Char} {marks : List Token}
    (hsep : Closed b separator marks) (hs : Stops separator) (hne : separator ≠ [])
    {text : α → List Char} {spelled : α → List Token} {as : List α}
    (h : ∀ a ∈ as, Reads b (text a) (spelled a)) :
    Reads b (separator.intercalate (as.map text)) (marks.intercalate (as.map spelled)) := by
  induction as with
  | nil => exact Closed.nil.reads
  | cons a as ih =>
    cases as with
    | nil =>
      simp only [List.map_cons, List.map_nil, List.intercalate_singleton]
      exact h a (.head _)
    | cons a' as =>
      simp only [List.map_cons, List.intercalate_cons_cons]
      have ha := (h a (.head _)).append_closed hsep hs hne
      exact ha.append_reads (ih fun a' ha' => h a' (.tail _ ha'))

/-- A list of names or literals, with the commas that a text has between them. -/
theorem reads_join {α : Type} {b : Bool} (text : α → String) (spelled : α → List Token)
    {as : List α} (h : ∀ a ∈ as, Reads b (text a).toList (spelled a)) :
    Reads b (Text.join ", " (as.map text)).toList
      ([Token.comma].intercalate (as.map spelled)) := by
  unfold Text.join
  rw [String.toList_intercalate, List.map_map]
  have hsep : Closed b ", ".toList [.comma] := closed_fixed (by decide) b
  exact reads_intercalate hsep (by decide) (by decide) h

end DdlGraph.Sql
