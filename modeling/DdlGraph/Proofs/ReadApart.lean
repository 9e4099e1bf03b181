import DdlGraph.Proofs.Successors

/-!
# Texts that are read apart

Where statements end, a text can be cut: what stands before the place and what follows it are read
apart (`ReadApart`). Such parts can be taken from each other (`ReadApart.of_append`), and so a
statement between two such places can be taken out of a text without a trace.

* `readApart_of_semicolon`: what ends with a semicolon and leaves no list open is read apart;
* `readApart_of_closed`: so are blanks and comments;
* `readApart_of_endsApart`: both can be checked.
-/

namespace DdlGraph.Sql

open DdlGraph.Text

/-! ## Scripts of parts -/

/-- The script of a text, on no lines. -/
def scriptOf (b : Bool) (cs : List Char) : Script :=
  .ofTokens (row (tokensOf b cs ++ [.endOfText]))

theorem scriptOf_ofText (text : String) :
    (Script.ofText text).reline (fun _ => 0) =
      scriptOf (Dialect.detect text).escapesBackslash text.toList :=
  Script.ofText_reline text

theorem scriptOf_noBackslash (b b' : Bool) {cs : List Char} (h : '\\' ∉ cs) :
    scriptOf b cs = scriptOf b' cs := by
  unfold scriptOf tokensOf
  rw [lexemes_noBackslash h, lexemes_noBackslash (b := b') h]

theorem scriptOf_of_tokens {b : Bool} {xs ys : List Char} (h : tokensOf b xs = tokensOf b ys) :
    scriptOf b xs = scriptOf b ys := by
  unfold scriptOf
  rw [h]

theorem scriptOf_nil (b : Bool) : scriptOf b [] = {} := by
  rw [scriptOf, tokensOf_nil]
  simp [row, Script.ofTokens]

theorem Script.append_empty (s : Script) : s.append {} = s := by
  simp [Script.append]

theorem Script.append_assoc (s s' s'' : Script) :
    (s.append s').append s'' = s.append (s'.append s'') := by
  simp [Script.append]

theorem Script.append_cancel {s s' s'' : Script} (h : s.append s' = s.append s'') : s' = s'' := by
  simp only [Script.append, Script.mk.injEq, List.append_cancel_left_eq] at h
  cases s'
  cases s''
  simp_all

/-- **The text is read apart** from whatever follows it. -/
def ReadApart (b : Bool) (cs : List Char) : Prop :=
  ∀ more, scriptOf b (cs ++ more) = (scriptOf b cs).append (scriptOf b more)

section
variable {b : Bool} {xs ys : List Char}

theorem ReadApart.nil : ReadApart b [] := by
  intro more
  rw [scriptOf_nil]
  rfl

theorem ReadApart.append (hx : ReadApart b xs) (hy : ReadApart b ys) : ReadApart b (xs ++ ys) := by
  intro more
  rw [List.append_assoc, hx, hy, hx, Script.append_assoc]

/-- What follows a part that is read apart is read apart too, if both together are. -/
theorem ReadApart.of_append (hx : ReadApart b xs) (h : ReadApart b (xs ++ ys)) :
    ReadApart b ys := by
  intro more
  apply Script.append_cancel (s := scriptOf b xs)
  rw [← hx, ← List.append_assoc, h, hx, Script.append_assoc]

/-- What spells nothing is read apart. -/
theorem readApart_of_closed (h : Closed b xs []) : ReadApart b xs := by
  intro more
  have hnone : scriptOf b xs = {} := by
    have htokens := h []
    rw [List.append_nil, tokensOf_nil, List.append_nil] at htokens
    rw [scriptOf, htokens]
    simp [row, Script.ofTokens]
  rw [hnone, scriptOf_of_tokens (h more)]
  rfl

/-- **Behind a semicolon** a text is read apart, if it leaves no list open: a parenthesis that opens
one does not run into the end of the text. -/
theorem readApart_of_semicolon {ts : List Token} (h : Closed b xs (ts ++ [.semicolon]))
    (hopen : .endOfText ∉ (scriptOf b (xs ++ ['('])).errors) : ReadApart b xs := by
  have hends : .endOfText ∉ ts := by
    intro hmem
    have htokens := h []
    rw [List.append_nil, tokensOf_nil, List.append_nil] at htokens
    apply endOfText_not_mem_tokensOf b xs
    rw [htokens]
    exact List.mem_append_left _ hmem
  have hinner : Inner (row ts) := by
    intro p hp hend
    obtain ⟨t, ht, rfl⟩ := List.mem_map.1 hp
    exact hends (hend ▸ ht)
  have hrow (more : List Char) : scriptOf b (xs ++ more) =
      .ofTokens (row ts ++ semicolonAt 0 :: row (tokensOf b more ++ [.endOfText])) := by
    rw [scriptOf, h, List.append_assoc, List.append_assoc, row_append]
    rfl
  cases closes (n := 0) hinner with
  | parts s inside reads =>
    have hscript (more : List Char) : scriptOf b (xs ++ more) = s.append (scriptOf b more) :=
      (hrow more).trans (reads _)
    intro more
    have hnone := hscript []
    rw [scriptOf_nil, Script.append_empty, List.append_nil] at hnone
    rw [hscript, hnone]
  | runsOut s early reads =>
    have hlist : tokensOf b ['('] = [.lparen] := by
      rw [tokensOf_cons, lexeme_mark (t := .lparen) rfl, spelled, tokensOf_nil]
      rfl
    rw [hrow, reads _ (by simp [OpensOnly, hlist, row, nextToken])] at hopen
    exact absurd early hopen

/-- The text ends where statements end: its last piece is a mark or blanks, and its last token a
semicolon with no list open before it, unless there is none. -/
def endsApart (b : Bool) (cs : List Char) : Bool :=
  (lexemes b cs).getLast?.any Lexeme.isMark &&
    match (tokensOf b cs).getLast? with
    | none => true
    | some t => t = .semicolon ∧ .endOfText ∉ (scriptOf b (cs ++ ['('])).errors

/-- **Whether a text is read apart** can be checked where its statements end. -/
theorem readApart_of_endsApart (h : endsApart b xs = true) : ReadApart b xs := by
  rw [endsApart, Bool.and_eq_true, Option.any_eq_true] at h
  obtain ⟨⟨l, hl, hmark⟩, hlast⟩ := h
  have hclosed := closed_of_last hl hmark
  split at hlast
  · rename_i hnone
    rw [List.getLast?_eq_none_iff.1 hnone] at hclosed
    exact readApart_of_closed hclosed
  · rename_i t hsome
    obtain ⟨rfl, hopen⟩ := of_decide_eq_true hlast
    obtain ⟨ts, hts⟩ := List.getLast?_eq_some_iff.1 hsome
    rw [hts] at hclosed
    exact readApart_of_semicolon hclosed hopen

end

end DdlGraph.Sql
