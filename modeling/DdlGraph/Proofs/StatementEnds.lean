import DdlGraph.Proofs.OpenLists

/-!
# How statements end

A statement ends with its semicolon. If it is wrong, what follows the semicolon is read as if
nothing stood before it. Only a list that is left open takes in what follows, and so does an index
whose semicolon stands where its access method should.

* `skipStatement_semicolon`: passing over a statement ends with its semicolon;
* `statement_ends`: a statement is read, or wrong before its semicolon, or runs out;
* `closes`: so what follows a semicolon is read for itself, or a list before it is open.
-/

namespace DdlGraph.Sql

/-! ## Statements -/

/-- **How a statement ends** whose tokens are `ts`, with a semicolon on line `n` behind them: it is
read, and at most its semicolon is taken; it is wrong before the semicolon; or a list runs out. -/
inductive Ends (n : Nat) (f : Input → Step (Option Statement)) (ts : Input) : Prop where
  | read (s : Option Statement) (us : Input) (left : us <:+ ts ++ [semicolonAt n])
      (reads : ∀ more, f (ts ++ semicolonAt n :: more) = .ok s (us ++ more))
  | wrong (e : SyntaxError) (us : Input) (left : us <:+ ts) (inside : e ≠ .endOfText)
      (fails : ∀ more, f (ts ++ semicolonAt n :: more) = .fail e (us ++ semicolonAt n :: more))
  | runsOut (runs : RunsOut n f ts)

section
variable {α : Type} {n : Nat} {f g : Input → Step (Option Statement)} {ts us : Input}

theorem Ends.of_eq (hg : Ends n g us) (h : us <:+ ts)
    (hf : ∀ more, f (ts ++ semicolonAt n :: more) = g (us ++ semicolonAt n :: more)) :
    Ends n f ts := by
  cases hg with
  | read s vs left reads =>
    have hmark : us ++ [semicolonAt n] <:+ ts ++ [semicolonAt n] := by
      obtain ⟨front, rfl⟩ := h
      exact ⟨front, by rw [List.append_assoc]⟩
    exact .read s vs (left.trans hmark) fun more => (hf more).trans (reads more)
  | wrong e vs left inside fails =>
    exact .wrong e vs (left.trans h) inside fun more => (hf more).trans (fails more)
  | runsOut runs =>
    refine .runsOut fun more hmore => ?_
    rw [hf]
    exact runs more hmore

/-- A production, and the statement that goes on with what it gives. -/
theorem Settles.ends {f : Input → Step α} {k : α → Input → Step (Option Statement)}
    (hf : Settles n f ts) (hk : ∀ a us, us <:+ ts → Ends n (k a) us) :
    Ends n (fun ts => (f ts).bind k) ts := by
  rcases hf with ⟨r, us, hus, hr, hf⟩ | hf
  · cases r with
    | ok a =>
      apply (hk a us hus).of_eq hus
      intro more
      show (f (ts ++ semicolonAt n :: more)).bind k = _
      rw [hf]
      rfl
    | error e =>
      refine .wrong e us hus (fun h => hr (by rw [h])) fun more => ?_
      show (f (ts ++ semicolonAt n :: more)).bind k = _
      rw [hf]
      rfl
  · exact .runsOut (hf.bind k)

theorem skipStatement_semicolon (n : Nat) (more ts : Input) :
    skipStatement (ts ++ semicolonAt n :: more) =
      skipStatement (ts ++ [semicolonAt n]) ++ more := by
  induction ts with
  | nil => rfl
  | cons p rest ih =>
    by_cases hsemi : p.token = .semicolon
    · simp [skipStatement, hsemi]
    by_cases hend : p.token = .endOfText
    · simp [skipStatement, hend]
    · simp only [List.cons_append, skipStatement, hsemi, hend, if_false]
      exact ih

/-- The rest of a statement is passed over. -/
theorem ends_skip (s : Option Statement) (ts : Input) :
    Ends n (fun ts => .ok s (skipStatement ts)) ts :=
  .read s _ (skipStatement_suffix _) fun more => by rw [skipStatement_semicolon]

end

section
variable {n : Nat}

theorem createTable_ends (line : Nat) (ts : Input) : Ends n (createTable line) ts := by
  have hskip := skipIfNotExists_suffix ts
  cases hname : objectName? (skipIfNotExists ts) with
  | none =>
    apply (ends_skip (some (.malformedTable none line)) (skipIfNotExists ts)).of_eq hskip
    intro more
    simp only [createTable, skipIfNotExists_stops, objectName?_stops, hname, Option.map_none]
  | some r =>
    obtain ⟨name, rest⟩ := r
    have hrest : rest <:+ ts := (objectName?_suffix hname).trans ((List.tail_suffix _).trans hskip)
    have other (hts : ∀ more, createTable line (ts ++ semicolonAt n :: more) =
        .ok (some (.malformedTable (some name) line))
          (skipStatement (rest ++ semicolonAt n :: more))) : Ends n (createTable line) ts :=
      (ends_skip _ rest).of_eq hrest hts
    cases rest with
    | nil =>
      apply other
      intro more
      simp only [createTable, skipIfNotExists_stops, objectName?_stops, hname, Option.map_some]
      rfl
    | cons p rest =>
      obtain ⟨t, l⟩ := p
      cases t with
      | lparen =>
        have hreads := (tableItems_settles (n := n) { name, line } rest).ends fun table us _ =>
          ends_skip (some (.createTable table)) us
        apply hreads.of_eq ((List.suffix_cons _ _).trans hrest)
        intro more
        simp only [createTable, skipIfNotExists_stops, objectName?_stops, hname, Option.map_some]
        rfl
      | _ =>
        apply other
        intro more
        simp only [createTable, skipIfNotExists_stops, objectName?_stops, hname, Option.map_some]
        rfl

/-- What `CREATE TYPE` needs behind the name. -/
def typeBehind (name : String) (ts : Input) : Step (Option Statement) :=
  match ts with
  | ⟨.keyword .as, _⟩ :: ⟨.keyword .enum, _⟩ :: ts =>
    (stringList ts).bind fun values ts => .ok (some (.createType name values)) (skipStatement ts)
  | ts => .ok none (skipStatement ts)

theorem typeBehind_ends (name : String) (ts : Input) : Ends n (typeBehind name) ts := by
  have other (hts : ∀ more, typeBehind name (ts ++ semicolonAt n :: more) =
      .ok none (skipStatement (ts ++ semicolonAt n :: more))) : Ends n (typeBehind name) ts :=
    (ends_skip none ts).of_eq (List.suffix_refl _) hts
  match ts with
  | [] => exact other fun _ => rfl
  | [⟨t, _⟩] =>
    cases t with
    | keyword k => cases k <;> exact other fun _ => rfl
    | _ => exact other fun _ => rfl
  | ⟨t, _⟩ :: ⟨u, _⟩ :: rest =>
    cases t with
    | keyword k =>
      cases k with
      | as =>
        cases u with
        | keyword k =>
          cases k with
          | enum =>
            have hreads := (stringList_settles (n := n) rest).ends fun values us _ =>
              ends_skip (some (.createType name values)) us
            exact hreads.of_eq ((List.suffix_cons _ _).trans (List.suffix_cons _ _)) fun _ => rfl
          | _ => exact other fun _ => rfl
        | _ => exact other fun _ => rfl
      | _ => exact other fun _ => rfl
    | _ => exact other fun _ => rfl

theorem createType_ends (ts : Input) : Ends n createType ts :=
  (objectName_settles .typeName ts).ends fun name us _ => typeBehind_ends name us

/-- **The columns of an index.** An access method is passed over with `USING`, and a semicolon in its
place too. -/
theorem indexColumns_settles (ts : Input) :
    Settles n (fun ts => columnList (skipUsing ts)) ts := by
  have plain {us : Input} (h : us <:+ ts) (hts : ∀ more, skipUsing (ts ++ semicolonAt n :: more) =
      us ++ semicolonAt n :: more) : Settles n (fun ts => columnList (skipUsing ts)) ts :=
    (columnList_settles us).of_eq h fun more => congrArg columnList (hts more)
  cases ts with
  | nil => exact plain (List.suffix_refl _) fun _ => rfl
  | cons p rest =>
    by_cases husing : p.token.isWord "using"
    · cases rest with
      | nil =>
        refine .inr fun more hmore => ?_
        have hskip : skipUsing ([p] ++ semicolonAt n :: more) = more := if_pos husing
        show EndedEarly (columnList (skipUsing ([p] ++ semicolonAt n :: more)))
        rw [hskip]
        cases more with
        | nil => exact absurd hmore.1 nofun
        | cons q more =>
          obtain ⟨t, line⟩ := q
          obtain rfl : t = .lparen := hmore.1
          exact columnItems_endedEarly [] true fun p hp => hmore.2 p (List.mem_cons_of_mem _ hp)
      | cons q rest =>
        exact plain ((List.suffix_cons _ _).trans (List.suffix_cons _ _)) fun _ => if_pos husing
    · exact plain (List.suffix_refl _) fun _ => if_neg husing

/-- What `CREATE INDEX` needs behind `ON`. -/
def indexBehind (unique : Bool) (ts : Input) : Step (Option Statement) :=
  (objectName .indexedTable (skipToken ts (.keyword .only))).bind fun table ts =>
    (columnList (skipUsing ts)).bind fun columns ts =>
      .ok (if columns.isEmpty then none else some (.createIndex table columns unique))
        (skipStatement ts)

theorem indexBehind_ends (unique : Bool) (ts : Input) : Ends n (indexBehind unique) ts := by
  have hreads := (objectName_settles (n := n) .indexedTable (skipToken ts (.keyword .only))).ends
    fun table us _ => (indexColumns_settles us).ends fun columns us _ =>
      ends_skip (if columns.isEmpty then none else some (.createIndex table columns unique)) us
  apply hreads.of_eq (skipToken_suffix _ _)
  intro more
  rw [← skipToken_stops n more (by decide)]
  rfl

theorem createIndex_ends (unique : Bool) (ts : Input) : Ends n (createIndex unique) ts := by
  have hname : skipIndexName (skipIfNotExists (skipWord ts "concurrently")) <:+ ts :=
    (skipIndexName_suffix _).trans ((skipIfNotExists_suffix _).trans (skipWord_suffix _ _))
  have hstops (more : Input) :
      skipIndexName (skipIfNotExists (skipWord (ts ++ semicolonAt n :: more) "concurrently")) =
        skipIndexName (skipIfNotExists (skipWord ts "concurrently")) ++ semicolonAt n :: more := by
    rw [skipWord_stops, skipIfNotExists_stops, skipIndexName_stops]
  generalize skipIndexName (skipIfNotExists (skipWord ts "concurrently")) = us at hname hstops
  have other (hus : ∀ more, createIndex unique (ts ++ semicolonAt n :: more) =
      .ok none (skipStatement (us ++ semicolonAt n :: more))) : Ends n (createIndex unique) ts :=
    (ends_skip none us).of_eq hname hus
  cases us with
  | nil => exact other fun more => by rw [createIndex, hstops]; rfl
  | cons p rest =>
    obtain ⟨t, line⟩ := p
    cases t with
    | keyword k =>
      cases k with
      | on =>
        apply (indexBehind_ends unique rest).of_eq ((List.suffix_cons _ _).trans hname)
        intro more
        rw [createIndex, hstops]
        rfl
      | _ => exact other fun more => by rw [createIndex, hstops]; rfl
    | _ => exact other fun more => by rw [createIndex, hstops]; rfl

theorem create_ends (line : Nat) (ts : Input) : Ends n (create line) ts := by
  have hkinds : skipTableKinds (skipOrReplace ts) <:+ ts :=
    (skipTableKinds_suffix _).trans (skipOrReplace_suffix _)
  have hstops (more : Input) : skipTableKinds (skipOrReplace (ts ++ semicolonAt n :: more)) =
      skipTableKinds (skipOrReplace ts) ++ semicolonAt n :: more := by
    rw [skipOrReplace_stops, skipTableKinds_stops]
  generalize skipTableKinds (skipOrReplace ts) = us at hkinds hstops
  have other (hus : ∀ more, create line (ts ++ semicolonAt n :: more) =
      .ok none (skipStatement (us ++ semicolonAt n :: more))) : Ends n (create line) ts :=
    (ends_skip none us).of_eq hkinds hus
  cases us with
  | nil => exact other fun more => by rw [create, hstops]; rfl
  | cons p rest =>
    have hrest : rest <:+ ts := (List.suffix_cons _ _).trans hkinds
    obtain ⟨t, l⟩ := p
    cases t with
    | keyword k =>
      cases k with
      | table =>
        exact (createTable_ends line rest).of_eq hrest fun more => by rw [create, hstops]; rfl
      | type => exact (createType_ends rest).of_eq hrest fun more => by rw [create, hstops]; rfl
      | index =>
        exact (createIndex_ends false rest).of_eq hrest fun more => by rw [create, hstops]; rfl
      | unique =>
        cases rest with
        | nil => exact other fun more => by rw [create, hstops]; rfl
        | cons q rest =>
          obtain ⟨u, l⟩ := q
          cases u with
          | keyword k =>
            cases k with
            | index =>
              apply (createIndex_ends true rest).of_eq ((List.suffix_cons _ _).trans hrest)
              intro more
              rw [create, hstops]
              rfl
            | _ => exact other fun more => by rw [create, hstops]; rfl
          | _ => exact other fun more => by rw [create, hstops]; rfl
      | _ => exact other fun more => by rw [create, hstops]; rfl
    | _ => exact other fun more => by rw [create, hstops]; rfl

/-- `CONSTRAINT` and a name are passed over. -/
def skipKeyName (ts : Input) : Input :=
  if nextToken ts = .keyword .constraint then skipName ts.tail else ts

theorem skipKeyName_suffix (ts : Input) : skipKeyName ts <:+ ts := by
  unfold skipKeyName
  split
  · exact (skipName_suffix _).trans (List.tail_suffix _)
  · exact List.suffix_refl _

theorem skipKeyName_stops (more ts : Input) :
    skipKeyName (ts ++ semicolonAt n :: more) = skipKeyName ts ++ semicolonAt n :: more := by
  cases ts with
  | nil => rfl
  | cons p rest =>
    unfold skipKeyName
    by_cases h : p.token = .keyword .constraint
    · simp only [List.cons_append, nextToken, h, if_true, List.tail_cons]
      exact skipName_stops n more rest
    · simp [nextToken, h]

/-- What is added to a table: a foreign key, or nothing that counts. -/
def keyOrNothing (table : String) (ts : Input) : Step (Option Statement) :=
  match ts with
  | ⟨.keyword .foreign, _⟩ :: ts =>
    (foreignKey ts).bind fun key ts =>
      .ok (some (.alterForeignKey table key)) (skipStatement ts)
  | ts => .ok none (skipStatement ts)

theorem keyOrNothing_ends (table : String) (ts : Input) : Ends n (keyOrNothing table) ts := by
  have other (hts : ∀ more, keyOrNothing table (ts ++ semicolonAt n :: more) =
      .ok none (skipStatement (ts ++ semicolonAt n :: more))) : Ends n (keyOrNothing table) ts :=
    (ends_skip none ts).of_eq (List.suffix_refl _) hts
  cases ts with
  | nil => exact other fun _ => rfl
  | cons p rest =>
    obtain ⟨t, line⟩ := p
    cases t with
    | keyword k =>
      cases k with
      | «foreign» =>
        have hreads := (foreignKey_settles (n := n) rest).ends fun key us _ =>
          ends_skip (some (.alterForeignKey table key)) us
        exact hreads.of_eq (List.suffix_cons _ _) fun _ => rfl
      | _ => exact other fun _ => rfl
    | _ => exact other fun _ => rfl

theorem addedKey_ends (table : String) (ts : Input) : Ends n (addedKey table) ts := by
  apply (keyOrNothing_ends table (skipKeyName ts)).of_eq (skipKeyName_suffix ts)
  intro more
  rw [← skipKeyName_stops]
  rfl

theorem alterTable_ends (line : Nat) (ts : Input) :
    Ends n (fun ts => alter (⟨.keyword .table, line⟩ :: ts)) ts := by
  have honly : skipToken (skipIfNotExists ts) (.keyword .only) <:+ ts :=
    (skipToken_suffix _ _).trans (skipIfNotExists_suffix _)
  have hstops (more : Input) :
      skipToken (skipIfNotExists (ts ++ semicolonAt n :: more)) (.keyword .only) =
        skipToken (skipIfNotExists ts) (.keyword .only) ++ semicolonAt n :: more := by
    rw [skipIfNotExists_stops, skipToken_stops n more (by decide)]
  generalize skipToken (skipIfNotExists ts) (.keyword .only) = us at honly hstops
  cases hname : objectName? us with
  | none =>
    apply (ends_skip none us).of_eq honly
    intro more
    simp only [alter, hstops, objectName?_stops, hname, Option.map_none]
  | some r =>
    obtain ⟨table, rest⟩ := r
    have hrest : rest <:+ ts := (objectName?_suffix hname).trans ((List.tail_suffix _).trans honly)
    have other (hts : ∀ more, alter (⟨.keyword .table, line⟩ :: (ts ++ semicolonAt n :: more)) =
        .ok none (skipStatement (rest ++ semicolonAt n :: more))) :
        Ends n (fun ts => alter (⟨.keyword .table, line⟩ :: ts)) ts :=
      (ends_skip none rest).of_eq hrest hts
    cases rest with
    | nil =>
      apply other
      intro more
      simp only [alter, hstops, objectName?_stops, hname, Option.map_some]
      rfl
    | cons p rest =>
      obtain ⟨t, l⟩ := p
      cases t with
      | keyword k =>
        cases k with
        | add =>
          apply (addedKey_ends table rest).of_eq ((List.suffix_cons _ _).trans hrest)
          intro more
          simp only [alter, hstops, objectName?_stops, hname, Option.map_some]
          rfl
        | _ =>
          apply other
          intro more
          simp only [alter, hstops, objectName?_stops, hname, Option.map_some]
          rfl
      | _ =>
        apply other
        intro more
        simp only [alter, hstops, objectName?_stops, hname, Option.map_some]
        rfl

theorem alter_ends (ts : Input) : Ends n alter ts := by
  have other (hts : ∀ more, alter (ts ++ semicolonAt n :: more) =
      .ok none (skipStatement (ts ++ semicolonAt n :: more))) : Ends n alter ts :=
    (ends_skip none ts).of_eq (List.suffix_refl _) hts
  cases ts with
  | nil => exact other fun _ => rfl
  | cons p rest =>
    obtain ⟨t, line⟩ := p
    cases t with
    | keyword k =>
      cases k with
      | table => exact (alterTable_ends line rest).of_eq (List.suffix_cons _ _) fun _ => rfl
      | _ => exact other fun _ => rfl
    | _ => exact other fun _ => rfl

/-- **A statement** ends with the semicolon, is wrong before it, or runs out. -/
theorem statement_ends (p : Placed) (ts : Input) : Ends n (statement p) ts := by
  have passed (h : ∀ rest, statement p rest = .ok none rest) : Ends n (statement p) ts := by
    refine .read none (ts ++ [semicolonAt n]) (List.suffix_refl _) fun more => ?_
    rw [h, List.append_assoc, List.singleton_append]
  obtain ⟨t, line⟩ := p
  cases t with
  | keyword k =>
    cases k with
    | create => exact create_ends line ts
    | alter => exact alter_ends ts
    | _ => exact passed fun _ => rfl
  | _ => exact passed fun _ => rfl

end

/-! ## Scripts -/

/-- What is read of one part of the tokens, and then of the other. -/
def Script.append (s s' : Script) : Script where
  statements := s.statements ++ s'.statements
  errors := s.errors ++ s'.errors

/-- One statement, or its error, in front. -/
def Script.cons (r : Except SyntaxError (Option Statement)) (s : Script) : Script :=
  match r with
  | .ok none => s
  | .ok (some st) => { s with statements := st :: s.statements }
  | .error e => { s with errors := e :: s.errors }

/-- **How the tokens end** before a semicolon on line `n`: what follows the semicolon is read for
itself, or a list is open, and what opens no other list is lost. -/
inductive Closes (n : Nat) (ts : Input) : Prop where
  | parts (s : Script) (inside : .endOfText ∉ s.errors)
      (reads : ∀ more, Script.ofTokens (ts ++ semicolonAt n :: more) = s.append (.ofTokens more))
  | runsOut (s : Script) (early : .endOfText ∈ s.errors)
      (reads : ∀ more, OpensOnly more → Script.ofTokens (ts ++ semicolonAt n :: more) = s)

/-- No end of the text among the tokens. -/
def Inner (ts : Input) : Prop :=
  ∀ p ∈ ts, p.token ≠ .endOfText

theorem Inner.of_suffix {us ts : Input} (h : Inner ts) (hus : us <:+ ts) : Inner us :=
  fun p hp => h p (hus.subset hp)

/-- What is left of tokens and their semicolon is nothing, or ends with the semicolon. -/
theorem suffix_semicolon {n : Nat} {us ts : Input} (h : us <:+ ts ++ [semicolonAt n]) :
    us = [] ∨ ∃ vs, vs <:+ ts ∧ us = vs ++ [semicolonAt n] := by
  rcases List.suffix_concat_iff.1 h with rfl | ⟨vs, rfl, hvs⟩
  · exact .inl rfl
  · exact .inr ⟨vs, hvs, rfl⟩

section
variable {n : Nat} {ts : Input} {r : Except SyntaxError (Option Statement)} {s : Script}

theorem Script.cons_append (s' : Script) : (Script.cons r s).append s' = .cons r (s.append s') := by
  cases r with
  | ok st => cases st <;> rfl
  | error e => rfl

theorem Script.empty_append (s : Script) : ({} : Script).append s = s :=
  rfl

theorem Script.endOfText_mem_cons :
    SyntaxError.endOfText ∈ (Script.cons r s).errors ↔
      r = .error .endOfText ∨ .endOfText ∈ s.errors := by
  cases r with
  | ok st => cases st <;> simp [Script.cons]
  | error e => simp [Script.cons, eq_comm]

/-- What stands in front of tokens that close. -/
theorem Closes.cons {us rest : Input} (hr : r ≠ .error .endOfText)
    (left : us <:+ rest ++ [semicolonAt n]) (ih : ∀ vs, vs <:+ rest → Closes n vs)
    (reads : ∀ more, Script.ofTokens (ts ++ semicolonAt n :: more) =
      .cons r (.ofTokens (us ++ more))) : Closes n ts := by
  rcases suffix_semicolon left with rfl | ⟨vs, hvs, rfl⟩
  · refine .parts (.cons r {}) (by simp [Script.endOfText_mem_cons, hr]) fun more => ?_
    rw [reads, Script.cons_append, Script.empty_append, List.nil_append]
  · have hsplit (more : Input) : vs ++ [semicolonAt n] ++ more = vs ++ semicolonAt n :: more := by
      rw [List.append_assoc, List.singleton_append]
    cases ih vs hvs with
    | parts s inside hs =>
      refine .parts (.cons r s) (by simp [Script.endOfText_mem_cons, hr, inside]) fun more => ?_
      rw [reads, hsplit, hs, Script.cons_append]
    | runsOut s early hs =>
      refine .runsOut (.cons r s) (Script.endOfText_mem_cons.2 (.inr early)) fun more hmore => ?_
      rw [reads, hsplit, hs more hmore]

theorem ofTokens_skipStatement (h : nextToken ts = .endOfText) :
    Script.ofTokens (skipStatement ts) = {} := by
  cases ts with
  | nil => rw [skipStatement, Script.ofTokens]
  | cons p rest =>
    have hp : p.token = .endOfText := h
    simp [skipStatement, Script.ofTokens, hp]

/-- **Tokens before a semicolon** close there or run out. -/
theorem closes (h : Inner ts) : Closes n ts := by
  generalize hlen : ts.length = len
  induction len using Nat.strongRecOn generalizing ts with
  | ind len ih =>
    cases ts with
    | nil =>
      refine .parts {} List.not_mem_nil fun more => ?_
      rw [List.nil_append, Script.ofTokens_cons (show Token.semicolon ≠ .endOfText by decide),
        Script.empty_append]
      rfl
    | cons p rest =>
      have hshort (vs : Input) (hvs : vs <:+ rest) : Closes n vs := by
        refine ih vs.length ?_ (h.of_suffix (hvs.trans (List.suffix_cons _ _))) rfl
        have := hvs.length_le
        simp only [List.length_cons] at hlen
        omega
      have hfirst (more : Input) : Script.ofTokens (p :: rest ++ semicolonAt n :: more) =
          .after (statement p (rest ++ semicolonAt n :: more)) :=
        Script.ofTokens_cons (h p List.mem_cons_self) _
      cases statement_ends (n := n) p rest with
      | read s us left reads =>
        apply Closes.cons (r := .ok s) nofun left hshort
        intro more
        rw [hfirst, reads]
        cases s <;> rfl
      | wrong e us left inside fails =>
        have hskip : skipStatement (us ++ [semicolonAt n]) <:+ rest ++ [semicolonAt n] := by
          obtain ⟨front, rfl⟩ := left
          exact (skipStatement_suffix _).trans ⟨front, by rw [List.append_assoc]⟩
        apply Closes.cons (r := .error e) (by simpa using inside) hskip hshort
        intro more
        rw [hfirst, fails, ← skipStatement_semicolon]
        rfl
      | runsOut runs =>
        refine .runsOut { errors := [.endOfText] } List.mem_cons_self fun more hmore => ?_
        obtain ⟨hresult, hrest⟩ := runs more hmore
        rw [hfirst]
        unfold Script.after
        rw [hresult]
        dsimp only
        rw [ofTokens_skipStatement hrest]

end

end DdlGraph.Sql
