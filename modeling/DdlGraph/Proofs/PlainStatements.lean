import DdlGraph.Proofs.PlainItems
import DdlGraph.Proofs.ReadStatements
import DdlGraph.Proofs.StatementPieces
import DdlGraph.Proofs.Successors
import Mathlib.Data.List.Infix

/-!
# Statements that a check and a reader see alike

A check looks for `CREATE TABLE` at the beginning of each statement, a reader wherever it comes to
it. In a plain text (`isPlain`) both find the same tables: a statement that creates a table does so
from its first word on, with nothing in front of the name that only one of them passes over, and its
items are plain.

* `exists_create`: where the tables of a script are read;
* `afterTable_eq`, `objectName?_of_qualifiedName?`: the name of a table;
* `create_columns`: the columns of a table, in its statement;
* `exists_statement_of_mem`: every table that is read has such a statement.
-/

namespace DdlGraph.Sql

open Check

/-! ## Where tables are read -/

section
variable {D : TableDef}

theorem createTable_result {line : Nat} {ts : Input}
    (h : (createTable line ts).result = .ok (some (.createTable D))) :
    ∃ name l body, objectName? (skipIfNotExists ts) = some (name, ⟨.lparen, l⟩ :: body) ∧
      (tableItems { name, line } body).result = .ok D := by
  unfold createTable at h
  split at h
  · rename_i name l body hname
    refine ⟨name, l, body, hname, ?_⟩
    obtain ⟨table, htable, h⟩ := Step.of_bind_ok h
    cases h
    exact htable
  · cases h
  · cases h

theorem createIndex_result (unique : Bool) (ts : Input) :
    (createIndex unique ts).result ≠ .ok (some (.createTable D)) := by
  intro h
  obtain ⟨table, columns, hs, -⟩ := createIndex_reads h
  cases hs

theorem create_result {line : Nat} {ts : Input}
    (h : (create line ts).result = .ok (some (.createTable D))) :
    ∃ l us, skipTableKinds (skipOrReplace ts) = ⟨.keyword .table, l⟩ :: us ∧
      (createTable line us).result = .ok (some (.createTable D)) := by
  unfold create at h
  split at h
  · rename_i hts
    exact ⟨_, _, hts, h⟩
  · obtain ⟨name, values, hs⟩ := createType_reads h
    cases hs
  · exact absurd h (createIndex_result true _)
  · exact absurd h (createIndex_result false _)
  · cases h

theorem statement_result {p : Placed} {ts : Input}
    (h : (statement p ts).result = .ok (some (.createTable D))) :
    p.token = .keyword .create ∧ (create p.line ts).result = .ok (some (.createTable D)) := by
  unfold statement at h
  split at h
  · exact ⟨‹_›, h⟩
  · obtain ⟨table, key, us, hs, -⟩ := alter_reads h
    cases hs
  · cases h

/-- **A table of a script** is created somewhere in the tokens. -/
theorem exists_create {ts : Input} (h : .createTable D ∈ (Script.ofTokens ts).statements) :
    ∃ p rest, p :: rest <:+ ts ∧ p.token = .keyword .create ∧
      (create p.line rest).result = .ok (some (.createTable D)) := by
  obtain ⟨p, rest, hsuffix, hread⟩ := Script.exists_statement h
  exact ⟨p, rest, hsuffix, statement_result hread⟩

end

/-! ## Plain statements -/

/-- What follows `CREATE`, `OR REPLACE` and the kinds of a table. -/
def behindCreate (ts : Input) : Input :=
  skipTableKinds (skipOrReplace ts.tail)

/-- A reader that comes to these tokens reads a table. -/
def opensTable (ts : Input) : Bool :=
  nextToken ts = .keyword .create && nextToken (behindCreate ts) = .keyword .table

/-- The whole of `IF NOT EXISTS`, or nothing of it. -/
def wholeIfNotExists (ts : Input) : Bool :=
  nextToken ts ≠ .keyword .if ||
    (ts.take 3).map (·.token) = [.keyword .if, .keyword .not, .keyword .exists]

/-- What a check takes for the columns of a table, after the parenthesis. -/
def tableBody (st : Input) : Input :=
  match qualifiedName? (Survey.afterTable st) with
  | some (_, ⟨.lparen, _⟩ :: body) => body
  | _ => []

/-- **A statement that creates a table** does so for a check, too. No semicolon is in its
parentheses, and every item is plain. -/
def isPlainTable (st : Input) : Bool :=
  createsTable st && wholeIfNotExists (behindCreate st).tail && st.all (·.token ≠ .semicolon) &&
    (splitItems [] 0 (tableBody st)).all isPlainItem

/-- **The statement is one for a check and for a reader**: a table is opened in front or not at
all. -/
def isPlainStatement (st : Input) : Bool :=
  st.tail.tails.all (fun us => !opensTable us) && (!opensTable st || isPlainTable st)

/-- **Every statement of the text is plain.** -/
def isPlain (ts : Input) : Bool :=
  (splitStatements [] 0 ts).all isPlainStatement

section
variable {p : Placed} (hp : IsMark p.token) (more : Input)
include hp

theorem opensTable_mark {ts : Input} (hts : ts ≠ []) :
    opensTable (ts ++ p :: more) = opensTable ts := by
  cases ts with
  | nil => exact absurd rfl hts
  | cons q ts =>
    have hbehind : behindCreate (q :: ts ++ p :: more) = behindCreate (q :: ts) ++ p :: more := by
      show skipTableKinds (skipOrReplace (ts ++ p :: more)) = _
      rw [skipOrReplace_mark hp, skipTableKinds_mark hp]
      rfl
    rw [opensTable, opensTable, hbehind]
    cases behindCreate (q :: ts) with
    | nil =>
      have := hp.ne_keyword .table
      simp [nextToken, this]
    | cons r us => rfl

end

/-! ## Names -/

theorem objectName?_of_qualifiedName? {ts us : Input} {name : String}
    (h : qualifiedName? ts = some (name, us)) : objectName? ts = some (name, us) := by
  fun_induction qualifiedName? ts generalizing name us with
  | case1 => cases h
  | case2 p => exact h
  | case3 p q rest ih =>
    cases hpart : p.token.nameText? with
    | none =>
      rw [hpart] at h
      cases h
    | some part =>
      have hname : objectName? (p :: q :: rest) = some (nameParts part (q :: rest)) := by
        show p.token.nameText?.map _ = _
        rw [hpart]
        rfl
      rw [hpart] at h
      rw [hname]
      by_cases hdot : q.token = .dot
      · have hrest := ih ((if_pos hdot).symm.trans h)
        obtain ⟨t, line⟩ := q
        obtain rfl : t = .dot := hdot
        cases rest with
        | nil => cases hrest
        | cons r rest =>
          obtain ⟨last, hlast, hparts⟩ := Option.map_eq_some_iff.1 hrest
          rw [nameParts, hlast]
          exact congrArg some hparts
      · rw [nameParts_of_not_dot (show nextToken (q :: rest) ≠ .dot from hdot)]
        exact (if_neg hdot).symm.trans h

/-- The tokens from the first `TABLE` on. -/
def fromTable (ts : Input) : Input :=
  ts.dropWhile (·.token ≠ .keyword .table)

theorem fromTable_word {p : Placed} {word : String} (hp : p.token.isWord word) (ts : Input) :
    fromTable (p :: ts) = fromTable ts := by
  refine List.dropWhile_cons_of_pos (decide_eq_true fun h => ?_)
  rw [h] at hp
  cases hp

theorem fromTable_skipWord (ts : Input) (word : String) :
    fromTable (skipWord ts word) = fromTable ts := by
  cases ts with
  | nil => rfl
  | cons p ts =>
    unfold skipWord
    dsimp only
    split
    · exact (fromTable_word ‹_› ts).symm
    · rfl

theorem fromTable_skipOrReplace (ts : Input) : fromTable (skipOrReplace ts) = fromTable ts := by
  cases ts with
  | nil => rfl
  | cons p ts =>
    unfold skipOrReplace
    split
    · exact (fromTable_skipWord ts "replace").trans (fromTable_word ‹_› ts).symm
    · rfl

theorem fromTable_skipTableKinds (ts : Input) : fromTable (skipTableKinds ts) = fromTable ts := by
  fun_induction skipTableKinds ts with
  | case1 => rfl
  | case2 p rest hp ih =>
    simp only [Bool.or_eq_true] at hp
    rcases hp with (hp | hp) | hp <;> exact ih.trans (fromTable_word hp rest).symm
  | case3 => rfl

theorem afterTable_eq {st : Input} (hopens : opensTable st)
    (hwhole : wholeIfNotExists (behindCreate st).tail) :
    Survey.afterTable st = skipIfNotExists (behindCreate st).tail := by
  obtain ⟨hcreate, htable⟩ := Bool.and_eq_true_iff.1 hopens
  have htable : nextToken (behindCreate st) = .keyword .table := of_decide_eq_true htable
  have hcreate : nextToken st = .keyword .create := of_decide_eq_true hcreate
  have hself : fromTable (behindCreate st) = behindCreate st := by
    generalize behindCreate st = us at htable
    cases us with
    | nil => cases htable
    | cons p us => exact List.dropWhile_cons_of_neg (by simp [show p.token = _ from htable])
  have hfrom : fromTable st = behindCreate st := by
    cases st with
    | nil => cases hcreate
    | cons p ts =>
      rw [← hself, behindCreate, fromTable_skipTableKinds, fromTable_skipOrReplace]
      exact List.dropWhile_cons_of_pos (by simp [show p.token = _ from hcreate])
  rw [Survey.afterTable, ← fromTable, hfrom]
  generalize (behindCreate st).tail = us at hwhole
  cases us with
  | nil => rfl
  | cons p rest =>
    by_cases hif : p.token = .keyword .if
    swap
    · simp [skipIfNotExists, nextToken, hif]
    rw [wholeIfNotExists] at hwhole
    have hwords : (rest.map (·.token)).take 2 = [.keyword .not, .keyword .exists] := by
      simpa [nextToken, hif] using hwhole
    cases rest with
    | nil => cases hwords
    | cons q rest =>
      cases rest with
      | nil => simp at hwords
      | cons r rest =>
        have hnot : q.token = .keyword .not := (List.cons.inj hwords).1
        have hexists : r.token = .keyword .exists := (List.cons.inj (List.cons.inj hwords).2).1
        simp [skipIfNotExists, nextToken, skipToken, hif, hnot, hexists]

/-! ## The statement of a table -/

/-- **A reader and a check see the same table** in a statement that creates one. -/
theorem create_columns {st : Input} (hst : Balanced (st.map (·.token))) (hopens : opensTable st)
    (hwhole : wholeIfNotExists (behindCreate st).tail)
    (hitems : ∀ item ∈ splitItems [] 0 (tableBody st), isPlainItem item)
    {sep : Placed} (hsep : IsMark sep.token) {more : Input} {line : Nat} {D : TableDef}
    (hread : (create line (st.tail ++ sep :: more)).result = .ok (some (.createTable D)))
    {name : String} {l : Nat} {body : Input}
    (hname : qualifiedName? (Survey.afterTable st) = some (name, ⟨.lparen, l⟩ :: body)) :
    D.name = name ∧
      (D.columns.map (Text.lower ·.name)).Sublist
        ((splitItems [] 0 body).filterMap notedName?) := by
  obtain ⟨hcreate, htable⟩ := Bool.and_eq_true_iff.1 hopens
  have hcreate : nextToken st = .keyword .create := of_decide_eq_true hcreate
  have htable : nextToken (behindCreate st) = .keyword .table := of_decide_eq_true htable
  have hkept := keptBehind_balanced
  have htail {us : Input} {t : Token} (hus : Balanced (us.map (·.token))) (ht : nextToken us = t)
      (hopen : t ≠ .lparen) : Balanced (us.tail.map (·.token)) := by
    cases us with
    | nil => exact .nil
    | cons p us => exact hkept hus fun hp => hopen (ht.symm.trans hp)
  have hbehind : Balanced ((behindCreate st).map (·.token)) :=
    hkept.skipTableKinds (hkept.skipOrReplace (htail hst hcreate nofun))
  rw [tableBody, hname] at hitems
  rw [afterTable_eq hopens hwhole] at hname
  have hobject := objectName?_of_qualifiedName? hname
  have hbody : Balanced ((⟨.lparen, l⟩ :: body : Input).map (·.token)) :=
    hkept.objectName? (hkept.skipIfNotExists (htail hbehind htable nofun)) hobject
  obtain ⟨hparting, -⟩ | ⟨-, inner, c, after, rfl, hin, hc, -⟩ := balanced_cons hbody
  · exact absurd (by decide : Token.lparen ∈ partingTokens) hparting
  -- What is read in front of the parenthesis ends with the statement.
  obtain ⟨_, us, hkinds, hread⟩ := create_result hread
  obtain ⟨name', l', body', hname', hread⟩ := createTable_result hread
  rw [skipOrReplace_mark hsep, skipTableKinds_mark hsep] at hkinds
  obtain rfl : us = (behindCreate st).tail ++ sep :: more := by
    change behindCreate st ++ sep :: more = _ at hkinds
    generalize behindCreate st = vs at hkinds htable
    cases vs with
    | nil => cases htable
    | cons q vs => exact (List.cons.inj hkinds).2.symm
  rw [skipIfNotExists_mark hsep, objectName?_mark hsep, hobject] at hname'
  obtain ⟨rfl, hbody'⟩ := Prod.mk.inj (Option.some.inj hname')
  obtain ⟨-, rfl⟩ := List.cons.inj hbody'
  have hread :
      (tableItems { name, line } (inner ++ c :: (after ++ sep :: more))).result = .ok D := by
    rw [← hread, ← List.cons_append, ← List.append_assoc]
    rfl
  obtain ⟨hD, columns, hcolumns, hsub⟩ := tableItems_columns hin hc hitems hread
  exact ⟨hD, hcolumns ▸ hsub⟩

/-- **The tables of a plain text** are created by its statements, whose names and columns a check
sees, too. -/
theorem exists_statement_of_mem {init : Input} (hinner : Inner init) {e : Placed}
    (he : e.token = .endOfText) (hcloses : Check.Closes 0 ((init ++ [e]).map (·.token)))
    (hplain : isPlain (init ++ [e])) {D : TableDef}
    (h : .createTable D ∈ (Script.ofTokens (init ++ [e])).statements) :
    ∃ st ∈ splitStatements [] 0 (init ++ [e]), nextToken st = .keyword .create ∧ createsTable st ∧
      ∀ name l body, qualifiedName? (Survey.afterTable st) = some (name, ⟨.lparen, l⟩ :: body) →
        D.name = name ∧ (D.columns.map (Text.lower ·.name)).Sublist
          ((splitItems [] 0 body).filterMap notedName?) := by
  obtain ⟨p, rest, hsuffix, hp, hread⟩ := exists_create h
  obtain ⟨_, us, hkinds, -⟩ := create_result hread
  obtain ⟨st, hst, vs, sep, more, heq, hsep, hvs, hsuffix, hst0⟩ :=
    exists_statement he hinner hcloses hsuffix (by simp [nextToken, hp])
  have hmark : IsMark sep.token :=
    hsep.elim (fun h => .inr (.inr (.inl h))) fun h => .inr (.inr (.inr h))
  have hne : vs ≠ [] := by
    rintro rfl
    obtain rfl : p = sep := (List.cons.inj heq).1
    exact hmark.ne_keyword _ hp
  have hopens : opensTable vs := by
    rw [← opensTable_mark hmark more hne, ← heq, opensTable, behindCreate]
    simp [nextToken, hp, hkinds]
  have hplain := List.all_eq_true.1 hplain st hst
  simp only [isPlainStatement, isPlainTable, Bool.and_eq_true, Bool.or_eq_true, List.all_eq_true,
    decide_eq_true_eq, Bool.not_eq_true', ne_eq] at hplain
  obtain ⟨halone, hplain⟩ := hplain
  -- No table is opened behind the first token, so the reader comes to the whole statement.
  obtain rfl : vs = st := by
    cases st with
    | nil => exact absurd (List.suffix_nil.1 hsuffix) hne
    | cons q tl =>
      refine (List.suffix_cons_iff.1 hsuffix).resolve_right fun htl => ?_
      have := halone vs ((List.mem_tails _ _).2 htl)
      rw [hopens] at this
      cases this
  obtain ⟨⟨⟨hcreates, hwhole⟩, hsemicolon⟩, hitems⟩ := hplain.resolve_left (by simp [hopens])
  have hbalanced : Balanced (vs.map (·.token)) := by
    refine balanced_of_closes hst0 ?_ ?_
    · simpa using fun q hq => hsemicolon q hq
    · simpa using fun q hq => hvs q hq
  refine ⟨vs, hst, of_decide_eq_true (Bool.and_eq_true_iff.1 hopens).1, hcreates,
    fun name l body => ?_⟩
  cases vs with
  | nil => exact absurd rfl hne
  | cons q tl =>
    obtain ⟨rfl, rfl⟩ := List.cons.inj heq
    exact create_columns hbalanced hopens hwhole hitems hmark hread

end DdlGraph.Sql
