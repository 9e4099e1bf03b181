import DdlGraph.Sql.Statement.Column
import DdlGraph.Sql.Token.Lexer

/-!
# Reading statements

The statements of a text that define a schema. A statement of another kind is passed over up to its
semicolon; so is one that turns out wrong, and its error is kept.

* `tableItem_suffix`, `statement_suffix`: every item and every statement takes at least the token
  it begins with, so reading ends;
* `foreignKey_columns_ne_nil`: a foreign key has columns on both sides.
-/

namespace DdlGraph.Sql

/-! ## Tables -/

/-- `KEY name (columns)` or `INDEX (columns)`, after its first word, and not a column of that
name. -/
def isIndexItem : Input → Bool
  | ⟨.lparen, _⟩ :: _ => true
  | name :: ⟨.lparen, _⟩ :: column :: _ =>
    name.token.nameText?.isSome && match column.token with
      | .ident _ | .quotedIdent _ => true
      | _ => false
  | _ => false

/-- The columns of `UNIQUE`, after the word and a name if there is one. -/
def uniqueColumns (ts : Input) : Step (List String) :=
  let ts := match nextToken ts with
    | .keyword .key | .keyword .index => ts.tail
    | _ => ts
  columnList (skipName ts)

/-- **Item** of a table that begins with the token `t`. -/
def tableItem (table : TableDef) (t : Token) (rest : Input) : Step TableDef :=
  match t with
  | .keyword .constraint => .ok table (skipName rest)
  | .keyword .primary =>
    (columnList (skipToken rest (.keyword .key))).bind fun columns rest =>
      .ok { table with primaryKey := table.primaryKey ++ columns } (skipItem rest)
  | .keyword .foreign =>
    (foreignKey rest).bind fun key rest =>
      .ok { table with foreignKeys := table.foreignKeys ++ [key] } rest
  | .keyword .unique =>
    (uniqueColumns rest).bind fun columns rest =>
      .ok { table with unique := if columns.isEmpty then table.unique else table.unique ++ [columns] }
        (skipItem rest)
  | .keyword .check => .ok table (skipParens rest)
  | t => match t.nameText? with
    | none => .ok table rest
    | some name =>
      if (t = .keyword .index ∨ t = .keyword .key) ∧ isIndexItem rest then
        .ok table (skipItem rest)
      else if t.isWord "like" ∨ t.isWord "exclude" then .ok table (skipItem rest)
      else
        (column name rest).bind fun c rest =>
          .ok { table with columns := table.columns ++ [c] } rest

theorem uniqueColumns_suffix (ts : Input) : (uniqueColumns ts).rest <:+ ts := by
  unfold uniqueColumns
  refine (columnList_suffix _).trans ((skipName_suffix _).trans ?_)
  split
  · exact List.tail_suffix _
  · exact List.tail_suffix _
  · exact List.suffix_refl _

theorem tableItem_suffix (table : TableDef) (t : Token) (rest : Input) :
    (tableItem table t rest).rest <:+ rest := by
  unfold tableItem
  split
  · exact skipName_suffix _
  · exact Step.bind_suffix ((columnList_suffix _).trans (skipToken_suffix _ _))
      fun _ => skipItem_suffix _
  · exact Step.bind_suffix (foreignKey_suffix _) fun _ => List.suffix_refl _
  · exact Step.bind_suffix (uniqueColumns_suffix _) fun _ => skipItem_suffix _
  · exact skipParens_suffix _
  · split
    · exact List.suffix_refl _
    · split
      · exact skipItem_suffix _
      · split
        · exact skipItem_suffix _
        · exact Step.bind_suffix (column_suffix _ _) fun _ => List.suffix_refl _

/-- The items of a table up to its closing parenthesis. A semicolon or the end of the text closes
it too. -/
def tableItems (table : TableDef) : Input → Step TableDef
  | [] => .ok table []
  | p :: rest =>
    if p.token = .rparen then .ok table rest
    else if p.token = .comma then tableItems table rest
    else if p.token = .semicolon ∨ p.token = .endOfText then .ok table (p :: rest)
    else match _h : tableItem table p.token rest with
      | ⟨.ok table', rest'⟩ => tableItems table' rest'
      | ⟨.error e, rest'⟩ => .fail e rest'
termination_by ts => ts.length
decreasing_by
  · exact Nat.lt_succ_self _
  · have := (tableItem_suffix table p.token rest).length_le
    rw [_h] at this
    exact Nat.lt_succ_of_le this

/-- **One item** is read before the others. -/
theorem tableItems_cons {p : Placed} (hp : p.token ∉ [Token.rparen, .comma, .semicolon, .endOfText])
    (table : TableDef) (rest : Input) :
    tableItems table (p :: rest) = (tableItem table p.token rest).bind tableItems := by
  simp only [List.mem_cons, List.not_mem_nil, or_false, not_or] at hp
  obtain ⟨hparen, hcomma, hsemicolon, hend⟩ := hp
  rw [tableItems, if_neg hparen, if_neg hcomma, if_neg (not_or.2 ⟨hsemicolon, hend⟩)]
  split
  · rename_i h
    rw [h]
    rfl
  · rename_i h
    rw [h]
    rfl

theorem tableItems_suffix (table : TableDef) (ts : Input) : (tableItems table ts).rest <:+ ts := by
  fun_induction tableItems table ts with
  | case1 | case4 => exact List.suffix_refl _
  | case2 => exact List.suffix_cons _ _
  | case3 _ _ _ _ _ ih => exact ih.trans (List.suffix_cons _ _)
  | case5 table p rest _ _ _ table' rest' h ih =>
    have := tableItem_suffix table p.token rest
    rw [h] at this
    exact ih.trans (this.trans (List.suffix_cons _ _))
  | case6 table p rest _ _ _ e rest' h =>
    have := tableItem_suffix table p.token rest
    rw [h] at this
    exact this.trans (List.suffix_cons _ _)

/-- `IF NOT EXISTS`, or a part of it, is passed over. -/
def skipIfNotExists (ts : Input) : Input :=
  if nextToken ts = .keyword .if then
    skipToken (skipToken ts.tail (.keyword .not)) (.keyword .exists)
  else ts

theorem skipIfNotExists_suffix (ts : Input) : skipIfNotExists ts <:+ ts := by
  unfold skipIfNotExists
  split
  · exact (skipToken_suffix _ _).trans ((skipToken_suffix _ _).trans (List.tail_suffix _))
  · exact List.suffix_refl _

/-! ## Statements -/

/-- `CREATE TABLE` after the two words; `line` is where it begins. -/
def createTable (line : Nat) (ts : Input) : Step (Option Statement) :=
  match objectName? (skipIfNotExists ts) with
  | some (name, ⟨.lparen, _⟩ :: rest) =>
    (tableItems { name, line } rest).bind fun table rest =>
      .ok (some (.createTable table)) (skipStatement rest)
  | some (name, rest) => .ok (some (.malformedTable (some name) line)) (skipStatement rest)
  | none => .ok (some (.malformedTable none line)) (skipStatement (skipIfNotExists ts))

/-- `CREATE TYPE` after the two words. Only enumerations are kept. -/
def createType (ts : Input) : Step (Option Statement) :=
  (objectName .typeName ts).bind fun name ts =>
    match ts with
    | ⟨.keyword .as, _⟩ :: ⟨.keyword .enum, _⟩ :: ts =>
      (stringList ts).bind fun values ts =>
        .ok (some (.createType name values)) (skipStatement ts)
    | ts => .ok none (skipStatement ts)

/-- The name of an index, which need not be there, up to `ON`. -/
def skipIndexName (ts : Input) : Input :=
  if nextToken ts = .keyword .on then ts
  else match objectName? ts with
    | some (_, rest) => rest
    | none => ts

/-- An access method after `USING` is passed over. -/
def skipUsing (ts : Input) : Input :=
  if (nextToken ts).isWord "using" then ts.tail.tail else ts

/-- `CREATE INDEX` after its words. An index without columns is nothing. -/
def createIndex (unique : Bool) (ts : Input) : Step (Option Statement) :=
  match skipIndexName (skipIfNotExists (skipWord ts "concurrently")) with
  | ⟨.keyword .on, _⟩ :: ts =>
    (objectName .indexedTable (skipToken ts (.keyword .only))).bind fun table ts =>
      (columnList (skipUsing ts)).bind fun columns ts =>
        .ok (if columns.isEmpty then none else some (.createIndex table columns unique))
          (skipStatement ts)
  | ts => .ok none (skipStatement ts)

/-- `TEMPORARY`, `TEMP` and `UNLOGGED`, any number of them, are passed over. -/
def skipTableKinds : Input → Input
  | [] => []
  | p :: rest =>
    if p.token.isWord "temporary" || p.token.isWord "temp" || p.token.isWord "unlogged" then
      skipTableKinds rest
    else p :: rest

/-- `OR REPLACE` is passed over. -/
def skipOrReplace (ts : Input) : Input :=
  if (nextToken ts).isWord "or" then skipWord ts.tail "replace" else ts

/-- A statement after `CREATE`, which stands on `line`. -/
def create (line : Nat) (ts : Input) : Step (Option Statement) :=
  match skipTableKinds (skipOrReplace ts) with
  | ⟨.keyword .table, _⟩ :: ts => createTable line ts
  | ⟨.keyword .type, _⟩ :: ts => createType ts
  | ⟨.keyword .unique, _⟩ :: ⟨.keyword .index, _⟩ :: ts => createIndex true ts
  | ⟨.keyword .index, _⟩ :: ts => createIndex false ts
  | ts => .ok none (skipStatement ts)

/-- The foreign key that `ALTER TABLE` adds, after `ADD`. -/
def addedKey (table : String) (ts : Input) : Step (Option Statement) :=
  let ts := if nextToken ts = .keyword .constraint then skipName ts.tail else ts
  match ts with
  | ⟨.keyword .foreign, _⟩ :: ts =>
    (foreignKey ts).bind fun key ts =>
      .ok (some (.alterForeignKey table key)) (skipStatement ts)
  | ts => .ok none (skipStatement ts)

/-- A statement after `ALTER`. Only added foreign keys are kept. -/
def alter (ts : Input) : Step (Option Statement) :=
  match ts with
  | ⟨.keyword .table, _⟩ :: ts =>
    let ts := skipToken (skipIfNotExists ts) (.keyword .only)
    match objectName? ts with
    | some (table, ⟨.keyword .add, _⟩ :: ts) => addedKey table ts
    | some (_, ts) => .ok none (skipStatement ts)
    | none => .ok none (skipStatement ts)
  | ts => .ok none (skipStatement ts)

/-- **Statement** that begins with the token of `p`. Any other token is passed over. -/
def statement (p : Placed) (rest : Input) : Step (Option Statement) :=
  match p.token with
  | .keyword .create => create p.line rest
  | .keyword .alter => alter rest
  | _ => .ok none rest

theorem createTable_suffix (line : Nat) (ts : Input) : (createTable line ts).rest <:+ ts := by
  have hs := skipIfNotExists_suffix ts
  unfold createTable
  split
  · rename_i h
    refine (Step.bind_suffix (tableItems_suffix _ _) fun _ => skipStatement_suffix _).trans ?_
    exact (List.suffix_cons _ _).trans ((objectName?_suffix h).trans ((List.tail_suffix _).trans hs))
  · rename_i h
    exact (skipStatement_suffix _).trans ((objectName?_suffix h).trans ((List.tail_suffix _).trans hs))
  · exact (skipStatement_suffix _).trans hs

theorem createType_suffix (ts : Input) : (createType ts).rest <:+ ts := by
  refine Step.bind_suffix (objectName_suffix _ _) fun name => ?_
  split
  · rename_i h
    rw [h]
    refine (Step.bind_suffix (stringList_suffix _) fun _ => skipStatement_suffix _).trans ?_
    exact (List.suffix_cons _ _).trans (List.suffix_cons _ _)
  · exact skipStatement_suffix _

theorem skipIndexName_suffix (ts : Input) : skipIndexName ts <:+ ts := by
  unfold skipIndexName
  split
  · exact List.suffix_refl _
  · split
    · rename_i h
      exact (objectName?_suffix h).trans (List.tail_suffix _)
    · exact List.suffix_refl _

theorem skipUsing_suffix (ts : Input) : skipUsing ts <:+ ts := by
  unfold skipUsing
  split
  · exact (List.tail_suffix _).trans (List.tail_suffix _)
  · exact List.suffix_refl _

theorem createIndex_suffix (unique : Bool) (ts : Input) : (createIndex unique ts).rest <:+ ts := by
  have hs : skipIndexName (skipIfNotExists (skipWord ts "concurrently")) <:+ ts :=
    (skipIndexName_suffix _).trans ((skipIfNotExists_suffix _).trans (skipWord_suffix _ _))
  unfold createIndex
  split
  · rename_i h
    rw [h] at hs
    refine List.IsSuffix.trans ?_ ((List.suffix_cons _ _).trans hs)
    exact Step.bind_suffix ((objectName_suffix _ _).trans (skipToken_suffix _ _)) fun _ =>
      Step.bind_suffix ((columnList_suffix _).trans (skipUsing_suffix _)) fun _ =>
        skipStatement_suffix _
  · exact (skipStatement_suffix _).trans hs

theorem skipTableKinds_suffix (ts : Input) : skipTableKinds ts <:+ ts := by
  fun_induction skipTableKinds ts with
  | case1 | case3 => exact List.suffix_refl _
  | case2 _ _ _ ih => exact ih.trans (List.suffix_cons _ _)

theorem skipOrReplace_suffix (ts : Input) : skipOrReplace ts <:+ ts := by
  unfold skipOrReplace
  split
  · exact (skipWord_suffix _ _).trans (List.tail_suffix _)
  · exact List.suffix_refl _

theorem create_suffix (line : Nat) (ts : Input) : (create line ts).rest <:+ ts := by
  have hs := (skipTableKinds_suffix (skipOrReplace ts)).trans (skipOrReplace_suffix ts)
  unfold create
  split
  · rename_i h
    rw [h] at hs
    exact (createTable_suffix _ _).trans ((List.suffix_cons _ _).trans hs)
  · rename_i h
    rw [h] at hs
    exact (createType_suffix _).trans ((List.suffix_cons _ _).trans hs)
  · rename_i h
    rw [h] at hs
    exact (createIndex_suffix _ _).trans
      ((List.suffix_cons _ _).trans ((List.suffix_cons _ _).trans hs))
  · rename_i h
    rw [h] at hs
    exact (createIndex_suffix _ _).trans ((List.suffix_cons _ _).trans hs)
  · exact (skipStatement_suffix _).trans hs

theorem addedKey_suffix (table : String) (ts : Input) : (addedKey table ts).rest <:+ ts := by
  have hs : (if nextToken ts = .keyword .constraint then skipName ts.tail else ts) <:+ ts := by
    split
    · exact (skipName_suffix _).trans (List.tail_suffix _)
    · exact List.suffix_refl _
  unfold addedKey
  dsimp only
  split
  · rename_i h
    rw [h] at hs
    refine List.IsSuffix.trans ?_ ((List.suffix_cons _ _).trans hs)
    exact Step.bind_suffix (foreignKey_suffix _) fun _ => skipStatement_suffix _
  · exact (skipStatement_suffix _).trans hs

theorem alter_suffix (ts : Input) : (alter ts).rest <:+ ts := by
  unfold alter
  split
  · rename_i ts
    have hs := (skipToken_suffix (skipIfNotExists ts) (.keyword .only)).trans
      (skipIfNotExists_suffix ts)
    refine List.IsSuffix.trans ?_ (List.suffix_cons _ _)
    dsimp only
    split
    · rename_i h
      exact (addedKey_suffix _ _).trans ((List.suffix_cons _ _).trans
        ((objectName?_suffix h).trans ((List.tail_suffix _).trans hs)))
    · rename_i h
      exact (skipStatement_suffix _).trans
        ((objectName?_suffix h).trans ((List.tail_suffix _).trans hs))
    · exact (skipStatement_suffix _).trans hs
  · exact skipStatement_suffix _

theorem statement_suffix (p : Placed) (rest : Input) : (statement p rest).rest <:+ rest := by
  unfold statement
  split
  · exact create_suffix _ _
  · exact alter_suffix _
  · exact List.suffix_refl _

/-! ## Scripts -/

/-- **Statements** of a list of tokens. After an error reading goes on behind the next
semicolon. -/
def Script.ofTokens : Input → Script
  | [] => {}
  | p :: rest =>
    if p.token = .endOfText then {}
    else match _h : statement p rest with
      | ⟨.ok none, rest'⟩ => Script.ofTokens rest'
      | ⟨.ok (some s), rest'⟩ =>
        let script := Script.ofTokens rest'
        { script with statements := s :: script.statements }
      | ⟨.error e, rest'⟩ =>
        let script := Script.ofTokens (skipStatement rest')
        { script with errors := e :: script.errors }
termination_by ts => ts.length
decreasing_by
  all_goals
    have := (statement_suffix p rest).length_le
    rw [_h] at this
  · exact Nat.lt_succ_of_le this
  · exact Nat.lt_succ_of_le this
  · exact Nat.lt_succ_of_le (Nat.le_trans (skipStatement_suffix rest').length_le this)

/-- The script that begins with what was read, and goes on behind it. -/
def Script.after (s : Step (Option Statement)) : Script :=
  match s.result with
  | .ok none => .ofTokens s.rest
  | .ok (some st) =>
    let script := Script.ofTokens s.rest
    { script with statements := st :: script.statements }
  | .error e =>
    let script := Script.ofTokens (skipStatement s.rest)
    { script with errors := e :: script.errors }

/-- **One statement** is read before the others. -/
theorem Script.ofTokens_cons {p : Placed} (hp : p.token ≠ .endOfText) (rest : Input) :
    Script.ofTokens (p :: rest) = .after (statement p rest) := by
  rw [Script.ofTokens, if_neg hp]
  split
  · rename_i h
    rw [h]
    rfl
  · rename_i h
    rw [h]
    rfl
  · rename_i h
    rw [h]
    rfl

/-- **Statements of a text**, whose dialect tells how strings are escaped. -/
def Script.ofText (text : String) : Script :=
  .ofTokens (tokens (Dialect.detect text).escapesBackslash text)

/-- Statements of characters. A text that is given is read faster if it is taken apart first. -/
def Script.ofChars (cs : List Char) : Script :=
  .ofTokens (placeTokens 1 (lexemes (Dialect.ofChars cs).escapesBackslash cs))

theorem Script.ofText_ofList (cs : List Char) : Script.ofText (.ofList cs) = .ofChars cs := by
  rw [ofText, ofChars, Dialect.detect_ofList, tokens_ofList]

theorem Script.statements_ofList (cs : List Char) :
    (Script.ofText (.ofList cs)).statements = (Script.ofChars cs).statements := by
  rw [ofText_ofList]

/-! ## What is read has columns -/

/-- The keys of a table have columns on both sides, its unique lists are not empty. -/
def TableDef.HasKeyColumns (table : TableDef) : Prop :=
  (∀ k ∈ table.foreignKeys, k.columns ≠ [] ∧ k.reference.columns ≠ []) ∧
    ∀ columns ∈ table.unique, columns ≠ []

theorem foreignKey_columns_ne_nil {ts : Input} {k : KeyDef} (h : (foreignKey ts).result = .ok k) :
    k.columns ≠ [] ∧ k.reference.columns ≠ [] := by
  unfold foreignKey at h
  split at h
  · obtain ⟨columns, -, h⟩ := Step.of_bind_ok h
    split at h
    · simp [Step.fail] at h
    · rename_i hc
      split at h
      · obtain ⟨r, hr, h⟩ := Step.of_bind_ok h
        cases h
        exact ⟨by simpa using hc, reference_columns_ne_nil hr⟩
      · simp [Step.fail] at h
  · simp [Step.fail] at h

end DdlGraph.Sql
