import DdlGraph.Proofs.Lines
import DdlGraph.Proofs.NameText
import DdlGraph.Proofs.ReadStatements

/-!
# Lines of statements

The line of a token follows from the text before it. Where a closed part of a text ends and a
`CREATE` begins, the pieces of the text part too, so the tokens behind stand on the lines that they
have in a text of their own. A statement keeps no line but that of its first token.

* `placed_append`: the tokens before and behind the `C` of `CREATE`;
* `statement_line`: the line that a statement keeps is the one that it begins on;
* `statement_of_row`: what is read from tokens on no line is read from them on any lines.
-/

namespace DdlGraph.Sql

/-! ## Lines of tokens -/

/-- The tokens of a text that begins on line `n`. -/
def placed (b : Bool) (n : Nat) (cs : List Char) : Input :=
  placeTokens n (lexemes b cs)

theorem placed_cons (b : Bool) (n : Nat) (c : Char) (cs : List Char) :
    placed b n (c :: cs) = ((lexeme b c cs).1.token.map (⟨·, n⟩)).toList ++
      placed b (lineAfter n (lexeme b c cs).1.raw) (lexeme b c cs).2 := by
  unfold placed
  rw [lexemes, placeTokens]
  cases (lexeme b c cs).1.token <;> rfl

/-- The first token of a text that begins with a word stands on the first line. -/
theorem line_of_placed_c {b : Bool} {n : Nat} {cs : List Char} {p : Placed} {ps : Input}
    (h : placed b n ('C' :: cs) = p :: ps) : p.line = n := by
  have htoken : (lexeme b 'C' cs).1.token ≠ none := by
    change (wordLexeme 'C' cs).1.token ≠ none
    unfold wordLexeme
    split
    · dsimp only
      split <;> exact nofun
    · exact nofun
  obtain ⟨t, ht⟩ := Option.ne_none_iff_exists'.1 htoken
  rw [placed_cons, ht] at h
  exact congrArg Placed.line (List.cons.inj h).1.symm

theorem placed_token (b : Bool) (n : Nat) (cs : List Char) :
    (placed b n cs).map (·.token) = tokensOf b cs ++ [.endOfText] :=
  placeTokens_tokens n _

theorem lineAfter_append (n : Nat) (xs ys : List Char) :
    lineAfter n (xs ++ ys) = lineAfter (lineAfter n xs) ys := by
  unfold lineAfter
  rw [List.count_append, Nat.add_assoc]

/-- The part spells `ts` if a `C` follows. -/
def ReadsBeforeC (b : Bool) (xs : List Char) (ts : List Token) : Prop :=
  ∀ more, tokensOf b (xs ++ 'C' :: more) = ts ++ tokensOf b ('C' :: more)

theorem tokensOf_c (b : Bool) : tokensOf b ['C'] = [.ident "C"] := by
  cases b <;> decide +kernel

theorem tokensOf_cc (b : Bool) : tokensOf b ['C', 'C'] = [.ident "CC"] := by
  cases b <;> decide +kernel

section
variable {b : Bool} {c : Char} {cs zs : List Char} {ts : List Token}

/-- A piece that takes all of a part takes the `C` behind it only if the part is empty. -/
theorem ReadsBeforeC.rest_ne_nil (h : ReadsBeforeC b (c :: cs) ts) :
    (lexeme b c (cs ++ ['C'])).2 ≠ [] := by
  intro hnil
  have htokens := h []
  have hraw := lexeme_raw_rest b c (cs ++ ['C'])
  rw [List.cons_append, tokensOf_cons, hnil, tokensOf_nil, List.append_nil, tokensOf_c] at htokens
  rw [hnil, List.append_nil] at hraw
  cases ht : (lexeme b c (cs ++ ['C'])).1.token with
  | none =>
    rw [ht] at htokens
    exact absurd htokens.symm (List.append_ne_nil_of_right_ne_nil _ (List.cons_ne_nil _ _))
  | some t =>
    rw [ht] at htokens
    have hlast := congrArg List.getLast? htokens
    rw [List.getLast?_append] at hlast
    obtain rfl : t = .ident "C" := Option.some.inj hlast
    rw [(raw_of_ident ht).1] at hraw
    have hlen := congrArg List.length hraw
    simp at hlen

/-- **One piece before a `C`** is the same whatever stands behind the `C`. -/
theorem ReadsBeforeC.exists_piece (h : ReadsBeforeC b (c :: cs) ts) :
    ∃ zs, (lexeme b c (cs ++ ['C'])).1.raw ++ zs = c :: cs ∧
      ∀ more, lexeme b c (cs ++ 'C' :: more) =
        ((lexeme b c (cs ++ ['C'])).1, zs ++ 'C' :: more) := by
  have hne := h.rest_ne_nil
  have hraw := lexeme_raw_rest b c (cs ++ ['C'])
  rw [← List.cons_append] at hraw
  obtain ⟨zs, hcs, hzs⟩ : ∃ zs, c :: cs = (lexeme b c (cs ++ ['C'])).1.raw ++ zs ∧
      (lexeme b c (cs ++ ['C'])).2 = zs ++ ['C'] := by
    rcases List.append_eq_append_iff.1 hraw with h | ⟨taken, htaken, hlast⟩
    · exact h
    · cases taken with
      | nil => exact ⟨[], by rw [htaken, List.append_nil, List.append_nil], hlast.symm⟩
      | cons d ds =>
        have hnil := (List.cons.inj hlast).2.symm
        exact absurd (List.append_eq_nil_iff.1 hnil).2 hne
  refine ⟨zs, hcs.symm, fun more => ?_⟩
  have happ := lexeme_append hne more
  rw [List.append_assoc, List.singleton_append] at happ
  rw [happ, hzs, List.append_assoc, List.singleton_append]

/-- A piece spells the first of the tokens of its part, or none. -/
theorem ReadsBeforeC.tail {l : Lexeme} (h : ReadsBeforeC b (c :: cs) ts)
    (hl : ∀ more, lexeme b c (cs ++ 'C' :: more) = (l, zs ++ 'C' :: more)) :
    ∃ us, ts = l.token.toList ++ us ∧ ReadsBeforeC b zs us := by
  have htokens : ∀ more, l.token.toList ++ tokensOf b (zs ++ 'C' :: more) =
      ts ++ tokensOf b ('C' :: more) := by
    intro more
    rw [← h more, List.cons_append, tokensOf_cons, hl]
  cases ht : l.token with
  | none =>
    rw [ht] at htokens
    exact ⟨ts, rfl, htokens⟩
  | some t =>
    rw [ht] at htokens
    cases ts with
    | nil =>
      -- Then the piece would be the word that the `C` begins, whatever that word is.
      have hone := htokens []
      have htwo := htokens ['C']
      rw [List.nil_append, tokensOf_c] at hone
      rw [List.nil_append, tokensOf_cc] at htwo
      have hsame := (List.cons.inj hone).1.symm.trans (List.cons.inj htwo).1
      exact absurd hsame (by decide)
    | cons t' us =>
      have hhead := (List.cons.inj (htokens [])).1
      refine ⟨us, by rw [← hhead]; rfl, fun more => ?_⟩
      exact (List.cons.inj (htokens more)).2

end

theorem placed_before {b : Bool} {xs : List Char} {ts : List Token} (h : ReadsBeforeC b xs ts)
    (n : Nat) (more : List Char) :
    ∃ ps : Input, ps.map (·.token) = ts ∧
      placed b n (xs ++ 'C' :: more) = ps ++ placed b (lineAfter n xs) ('C' :: more) := by
  generalize hlen : xs.length = len
  induction len using Nat.strongRecOn generalizing xs ts n with
  | ind len ih =>
    cases xs with
    | nil =>
      have hnil : ts = [] := List.append_cancel_right (h more).symm
      exact ⟨[], hnil.symm, rfl⟩
    | cons c cs =>
      obtain ⟨zs, hraw, hl⟩ := h.exists_piece
      have hne := raw_ne_nil b c (cs ++ ['C'])
      generalize (lexeme b c (cs ++ ['C'])).1 = l at hraw hl hne
      obtain ⟨us, rfl, hzs⟩ := h.tail hl
      have hshort : zs.length < len := by
        have hlength := congrArg List.length hraw
        have hpos := List.length_pos_iff.2 hne
        rw [List.length_append] at hlength
        omega
      obtain ⟨ps, hps, hplaced⟩ := ih _ hshort hzs (lineAfter n l.raw) rfl
      refine ⟨(l.token.map (⟨·, n⟩)).toList ++ ps, ?_, ?_⟩
      · rw [List.map_append, hps]
        cases l.token <;> rfl
      · rw [List.cons_append, placed_cons, hl, hplaced, ← hraw, lineAfter_append,
          List.append_assoc]

/-- **The tokens of a closed part and of what a `C` begins behind it.** -/
theorem placed_append {b : Bool} {xs : List Char} {ts : List Token} (h : Closed b xs ts) (n : Nat)
    (more : List Char) :
    ∃ ps : Input, ps.map (·.token) = ts ∧
      placed b n (xs ++ 'C' :: more) = ps ++ placed b (lineAfter n xs) ('C' :: more) :=
  placed_before (fun more => h ('C' :: more)) n more

/-! ## Lines of statements -/

/-- The line that a statement keeps. -/
def Statement.line? : Statement → Option Nat
  | .createTable table => some table.line
  | .malformedTable _ line => some line
  | _ => none

/-- The statement keeps no other line than `n`. -/
def KeepsLine (n : Nat) (s : Option Statement) : Prop :=
  ∀ line ∈ s.bind Statement.line?, line = n

theorem ItemAdds.line {table table' : TableDef} (h : ItemAdds table table') :
    table'.line = table.line := by
  cases h <;> rfl

theorem StatementRead.keepsLine {n : Nat} {s : Statement} (h : StatementRead n s) :
    KeepsLine n (some s) := by
  intro line hline
  cases h with
  | createTable htable =>
    obtain rfl := Option.some.inj hline
    exact tableItems_keep (fun hadds => (ItemAdds.line hadds).trans) htable rfl
  | malformedTable => exact (Option.some.inj hline).symm
  | createType | alterForeignKey | createIndex => cases hline

/-- **A statement keeps the line that it begins on**, if it keeps one. -/
theorem statement_line {p : Placed} {rest : Input} {s : Option Statement}
    (h : (statement p rest).result = .ok s) : KeepsLine p.line s := by
  cases s with
  | none => exact fun _ hline => nomatch hline
  | some s => exact (statement_reads h).keepsLine

/-! ## Statements on any lines -/

/-- The statement, begun on line `n`. -/
def Statement.onLine (n : Nat) : Statement → Statement
  | .createTable table => .createTable { table with line := n }
  | .malformedTable name _ => .malformedTable name n
  | s => s

theorem Statement.onLine_of_line? {s : Statement} (h : s.line? = none) (n : Nat) :
    s.onLine n = s := by
  cases s with
  | createTable | malformedTable => cases h
  | _ => rfl

theorem Statement.eq_onLine {n : Nat} {s : Statement} (h : KeepsLine n (some s)) :
    s = (s.reline fun _ => 0).onLine n := by
  cases s with
  | createTable table =>
    have hline : table.line = n := h table.line rfl
    rw [← hline]
    rfl
  | malformedTable name line =>
    have hline : line = n := h line rfl
    rw [← hline]
    rfl
  | _ => rfl

theorem relined_eq_row {ps : Input} {ts : List Token} (h : ps.map (·.token) = ts) :
    relined (fun _ => 0) ps = row ts := by
  rw [relined_zero, h]

theorem length_relined (f : Nat → Nat) (ps : Input) : (relined f ps).length = ps.length :=
  List.length_map _

/-- **A statement that is read from tokens on no line** is read from them on any lines. -/
theorem statement_of_row {t : Token} {ts : List Token} {s : Statement}
    (h : ∀ rest, statement ⟨t, 0⟩ (row ts ++ rest) = .ok (some s) rest) {ps : Input}
    (hps : ps.map (·.token) = ts) (n : Nat) (rest : Input) :
    statement ⟨t, n⟩ (ps ++ rest) = .ok (some (s.onLine n)) rest := by
  have hzero := statement_relined (fun _ => 0) ⟨t, n⟩ (ps ++ rest)
  have happ : relined (fun _ => 0) (ps ++ rest) = row ts ++ relined (fun _ => 0) rest := by
    rw [← relined_eq_row hps]
    exact List.map_append
  rw [happ] at hzero
  have hrow := (h (relined (fun _ => 0) rest)).symm.trans hzero
  have hrest : (statement ⟨t, n⟩ (ps ++ rest)).rest = rest := by
    have hlen := congrArg (List.length ∘ Step.rest) hrow
    have hsuffix := statement_suffix ⟨t, n⟩ (ps ++ rest)
    dsimp only [Function.comp_apply, Step.reline, Step.ok] at hlen
    rw [length_relined, length_relined] at hlen
    exact (List.suffix_or_suffix_of_suffix hsuffix (List.suffix_append ps rest)).elim
      (fun hle => hle.eq_of_length hlen.symm) fun hle => (hle.eq_of_length hlen).symm
  have hresult : (statement ⟨t, n⟩ (ps ++ rest)).result = .ok (some (s.onLine n)) := by
    have hresult := congrArg Step.result hrow
    dsimp only [Step.reline, Step.ok] at hresult
    split at hresult
    · rename_i s' hs'
      obtain ⟨s', rfl, rfl⟩ := Option.map_eq_some_iff.1 (Except.ok.inj hresult).symm
      rw [hs', ← Statement.eq_onLine (statement_line hs')]
    · cases hresult
  calc statement ⟨t, n⟩ (ps ++ rest)
      = ⟨(statement ⟨t, n⟩ (ps ++ rest)).result, (statement ⟨t, n⟩ (ps ++ rest)).rest⟩ := rfl
    _ = .ok (some (s.onLine n)) rest := by rw [hresult, hrest]; rfl

end DdlGraph.Sql
