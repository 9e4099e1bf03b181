import DdlGraph.Proofs.StatementEnds
import DdlGraph.Proofs.SurveyTokens

/-!
# The statement that a token stands in

A survey splits a text into statements at the semicolons outside of parentheses. Where all
parentheses are closed, every token but a semicolon and the last one stands in one of them, and the
parentheses of this statement are closed in it.

* `balanced_of_closes`: parentheses that are closed stand in pairs;
* `exists_statement`: what follows a token begins with the rest of its statement.
-/

namespace DdlGraph.Check

open DdlGraph.Sql

/-! ## Pairs -/

/-- Pairs in which no statement ends are balanced. -/
theorem Paired.balanced {ts : List Token} (h : Paired ts) (hsemicolon : .semicolon ∉ ts)
    (hend : .endOfText ∉ ts) : Balanced ts := by
  induction h with
  | nil => exact .nil
  | @token t ts hopen hclose _ ih =>
    obtain ⟨hsemi, hsemicolon⟩ := not_or.1 (mt List.mem_cons.2 hsemicolon)
    obtain ⟨hfin, hend⟩ := not_or.1 (mt List.mem_cons.2 hend)
    refine .token ?_ (ih hsemicolon hend)
    simp [partingTokens, hopen, hclose, Ne.symm hsemi, Ne.symm hfin]
  | parens _ _ ihin ih =>
    simp only [List.mem_cons, List.mem_append, not_or] at hsemicolon hend
    exact .parens (ihin hsemicolon.2.1 hend.2.1) (ih hsemicolon.2.2.2 hend.2.2.2)

theorem balanced_of_closes {ts : List Token} (h : Closes 0 ts) (hsemicolon : .semicolon ∉ ts)
    (hend : .endOfText ∉ ts) : Balanced ts :=
  ((closes_iff_paired ts).1 h).balanced hsemicolon hend

/-! ## Statements -/

/-- The token ends a statement outside of parentheses. -/
def EndsStatement (p : Placed) : Prop :=
  p.token = .semicolon ∨ p.token = .endOfText

theorem mem_endStatement {read : List Placed} {others : List (List Placed)} {st : List Placed}
    (h : st ∈ others) : st ∈ endStatement read others := by
  unfold endStatement
  split
  · exact h
  · exact .tail _ h

theorem read_mem_endStatement {read : List Placed} (h : read.reverse ≠ [])
    (others : List (List Placed)) : read.reverse ∈ endStatement read others := by
  unfold endStatement
  rw [if_neg (by simpa using h)]
  exact .head _

theorem splitStatements_cons {p : Placed} {depth : Nat}
    (hsemicolon : p.token = .semicolon → depth ≠ 0) (hend : p.token ≠ .endOfText)
    (read rest : List Placed) :
    splitStatements read depth (p :: rest) =
      splitStatements (p :: read) (depthAfter depth p.token) rest := by
  rw [splitStatements]
  split
  · rename_i hp
    rw [hp]
    rfl
  · rename_i hp
    rw [hp]
    rfl
  · rename_i hp
    rw [if_neg (hsemicolon hp), hp]
    rfl
  · exact absurd ‹_› hend
  · rename_i hopen hclose _ _
    unfold depthAfter
    split
    · exact absurd ‹_› hopen
    · exact absurd ‹_› hclose
    · rfl

section
variable {e : Placed} (he : e.token = .endOfText)
include he

/-- The rest of the statement that has begun with `read`. -/
theorem exists_rest {us : List Placed} (hinner : Inner us) {depth : Nat}
    (h : Closes depth ((us ++ [e]).map (·.token))) (read : List Placed) :
    ∃ vs sep more, us ++ [e] = vs ++ sep :: more ∧ EndsStatement sep ∧ Inner vs ∧
      Closes depth (vs.map (·.token)) ∧
      (read.reverse ++ vs ≠ [] → read.reverse ++ vs ∈ splitStatements read depth (us ++ [e])) := by
  induction us generalizing read depth with
  | nil =>
    obtain rfl : depth = 0 := by
      rw [List.nil_append, List.map_cons, he] at h
      cases depth with
      | zero => rfl
      | succ depth => exact h.elim
    refine ⟨[], e, [], rfl, .inr he, nofun, trivial, fun hread => ?_⟩
    rw [List.append_nil] at hread ⊢
    rw [List.nil_append, splitStatements, he]
    exact read_mem_endStatement hread _
  | cons p us ih =>
    obtain ⟨hp, hus⟩ := List.forall_mem_cons.1 hinner
    by_cases hsemicolon : p.token = .semicolon ∧ depth = 0
    · obtain ⟨hsemicolon, rfl⟩ := hsemicolon
      refine ⟨[], p, us ++ [e], rfl, .inl hsemicolon, nofun, trivial, fun hread => ?_⟩
      rw [List.append_nil] at hread ⊢
      rw [List.cons_append, splitStatements, hsemicolon]
      exact read_mem_endStatement hread _
    · obtain ⟨hdepth, hrest⟩ := closes_cons.1 h
      obtain ⟨vs, sep, more, heq, hsep, hvs, hcloses, hmem⟩ := ih hus hrest (p :: read)
      refine ⟨p :: vs, sep, more, by rw [List.cons_append, heq, List.cons_append], hsep,
        List.forall_mem_cons.2 ⟨hp, hvs⟩, closes_cons.2 ⟨hdepth, hcloses⟩, fun _ => ?_⟩
      rw [List.cons_append, splitStatements_cons (fun h h0 => hsemicolon ⟨h, h0⟩) hp]
      simpa using hmem (by simp)

/-- The statement that the first token of `us` stands in, where `read` is the statement so far. -/
theorem exists_statement_behind {pre us : List Placed} (hpre : Inner pre) (hus : Inner us)
    (hfirst : nextToken us ≠ .semicolon ∧ nextToken us ≠ .endOfText) {depth : Nat}
    {read : List Placed}
    (hread : ∀ ts, Closes depth ts → Closes 0 (read.reverse.map (·.token) ++ ts))
    (h : Closes depth ((pre ++ (us ++ [e])).map (·.token))) :
    ∃ st ∈ splitStatements read depth (pre ++ (us ++ [e])), ∃ vs sep more,
      us ++ [e] = vs ++ sep :: more ∧ EndsStatement sep ∧ Inner vs ∧ vs <:+ st ∧
      Closes 0 (st.map (·.token)) := by
  induction pre generalizing depth read with
  | nil =>
    obtain ⟨vs, sep, more, heq, hsep, hvs, hcloses, hmem⟩ := exists_rest he hus h read
    have hne : vs ≠ [] := by
      rintro rfl
      cases us with
      | nil => exact hfirst.2 rfl
      | cons p us =>
        obtain rfl : p = sep := (List.cons.inj heq).1
        exact hsep.elim hfirst.1 hfirst.2
    refine ⟨_, hmem (by simp [hne]), vs, sep, more, heq, hsep, hvs, List.suffix_append _ _, ?_⟩
    rw [List.map_append]
    exact hread _ hcloses
  | cons q pre ih =>
    obtain ⟨hq, hpre⟩ := List.forall_mem_cons.1 hpre
    obtain ⟨hdepth, hrest⟩ := closes_cons.1 h
    by_cases hsemicolon : q.token = .semicolon ∧ depth = 0
    · obtain ⟨hsemicolon, rfl⟩ := hsemicolon
      have hrest : Closes 0 ((pre ++ (us ++ [e])).map (·.token)) := by
        have h := hrest
        dsimp only at h
        rw [hsemicolon] at h
        exact h
      obtain ⟨st, hst, hpiece⟩ := @ih hpre 0 [] (fun _ h => h) hrest
      refine ⟨st, ?_, hpiece⟩
      rw [List.cons_append, splitStatements, hsemicolon]
      exact mem_endStatement hst
    · rw [List.cons_append, splitStatements_cons (fun h h0 => hsemicolon ⟨h, h0⟩) hq]
      refine ih hpre (fun ts hts => ?_) hrest
      have := hread _ (closes_cons.2 ⟨hdepth, hts⟩)
      simpa using this

/-- **Every token stands in a statement**, of which the tokens that follow have the rest. -/
theorem exists_statement {init : List Placed} (hinner : Inner init)
    (h : Closes 0 ((init ++ [e]).map (·.token))) {us : List Placed} (hus : us <:+ init ++ [e])
    (hfirst : nextToken us ≠ .semicolon ∧ nextToken us ≠ .endOfText) :
    ∃ st ∈ splitStatements [] 0 (init ++ [e]), ∃ vs sep more, us = vs ++ sep :: more ∧
      EndsStatement sep ∧ Inner vs ∧ vs <:+ st ∧ Closes 0 (st.map (·.token)) := by
  rcases List.suffix_concat_iff.1 hus with rfl | ⟨us, rfl, pre, rfl⟩
  · exact absurd rfl hfirst.2
  · have hparts := List.forall_mem_append.1 hinner
    have hnext : nextToken us ≠ .semicolon ∧ nextToken us ≠ .endOfText := by
      cases us with
      | nil => exact absurd he hfirst.2
      | cons p us => exact hfirst
    rw [List.append_assoc] at h ⊢
    have hnone (ts : List Token) (h : Closes 0 ts) : Closes 0 ([].map Placed.token ++ ts) := h
    exact exists_statement_behind he hparts.1 hparts.2 hnext hnone h

end

end DdlGraph.Check
