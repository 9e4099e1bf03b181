import Mathlib.Data.List.Forall2
import DdlGraph.Proofs.ColumnText
import DdlGraph.Proofs.StatementLines

/-!
# Statements read back

The items of a table are read one by one (`ItemReads`), and so are the statements of a script
(`StatementReads`): what a text was written for is what is read from it.

* `itemReads_column`, `itemReads_primaryKey`, `itemReads_foreignKey`: the items of a table;
* `statementReads_table`, `statementReads_enum`, `statementReads_index`, `statementReads_addKey`:
  the statements of a script;
* `StatementsRead.append`, `BeginsRead.append`: parts of a script, on whatever lines they stand.
-/

namespace DdlGraph.Ddl

open DdlGraph.Sql

/-! ## Items -/

/-- Tokens behind an item. -/
def itemEnds : List Token :=
  [.comma, .rparen]

/-- **Item of a table**: it does `f` to the definition of the table. -/
def ItemReads (b : Bool) (text : List Char) (f : TableDef → TableDef) : Prop :=
  ∃ ts, Reads b text ts ∧ ∀ table rest, nextToken rest ∈ itemEnds →
    tableItems table (row ts ++ rest) = tableItems (f table) rest

/-- **One item** is read before the others. -/
theorem tableItems_step {table table' : TableDef} {t : Token} {line : Nat} {rest rest' : Input}
    (ht : t ∉ [Token.rparen, .comma, .semicolon, .endOfText])
    (h : tableItem table t rest = .ok table' rest') :
    tableItems table (⟨t, line⟩ :: rest) = tableItems table' rest' := by
  rw [tableItems_cons (p := ⟨t, line⟩) ht, h]
  rfl

theorem skipItem_end {rest : Input} (h : nextToken rest ∈ itemEnds) : skipItem rest = rest := by
  cases rest with
  | nil => rw [skipItem]
  | cons p rest =>
    obtain ⟨t, line⟩ := p
    have ht : t = .comma ∨ t = .rparen := by simpa [itemEnds, nextToken] using h
    rcases ht with rfl | rfl <;> rw [skipItem]

theorem ends_of_itemEnds {rest : Input} (h : nextToken rest ∈ itemEnds) : Ends rest := by
  have hsub : itemEnds ⊆ partEnds := by decide
  exact hsub h

/-- A name that does not begin an item of another kind. -/
def NamesColumn (s : Settings) (name : String) : Prop :=
  (nameToken s name).isWord "like" = false ∧ (nameToken s name).isWord "exclude" = false

theorem namesColumn_of_caseSensitive {s : Settings} (h : s.caseSensitive = true) (name : String) :
    NamesColumn s name := by
  have ht : nameToken s name = .quotedIdent name := by
    unfold nameToken
    rw [h]
    rfl
  unfold NamesColumn
  rw [ht]
  exact ⟨rfl, rfl⟩

theorem nameToken_not_mem (s : Settings) (name : String) :
    nameToken s name ∉ [Token.rparen, .comma, .semicolon, .endOfText] := by
  rcases nameToken_cases s name with h | h <;> simp [h]

/-- A table with a column more. -/
def addColumnDef (c : ColumnDef) (table : TableDef) : TableDef :=
  { table with columns := table.columns ++ [c] }

theorem tableItem_name {s : Settings} {name : String} (h : NamesColumn s name) {table : TableDef}
    {c : ColumnDef} {rest rest' : Input} (hc : column name rest = .ok c rest') :
    tableItem table (nameToken s name) rest = .ok (addColumnDef c table) rest' := by
  obtain ⟨hlike, hexclude⟩ := h
  rcases nameToken_cases s name with ht | ht
  · rw [ht] at hlike hexclude ⊢
    unfold tableItem
    simp only [Token.nameText?, reduceCtorEq, or_self, false_and, if_false, hlike, hexclude,
      Bool.false_eq_true, hc]
    rfl
  · rw [ht]
    unfold tableItem
    simp only [Token.nameText?, reduceCtorEq, or_self, false_and, if_false, Token.isWord,
      Bool.false_eq_true, hc]
    rfl

/-- The text of a column is its name and what its clauses are read as, whatever fills up the
name. -/
theorem reads_columnText (s : Settings) {b : Bool} {title : String} {cs : List Clause}
    {ts : List Token} (h : Reads b (Text.join " " (cs.map (Clause.text s))).toList ts)
    (width : Nat) :
    Reads b ((Item.column title cs).text s width).toList (nameToken s title :: ts) := by
  unfold Item.text
  dsimp only
  generalize width - Text.width (quote s title) = n
  have hblank : ∀ c ∈ List.replicate n ' ' ++ " ".toList, c = ' ' := by
    intro c hc
    rcases List.mem_append.1 hc with hc | hc
    · exact List.eq_of_mem_replicate hc
    · exact List.mem_singleton.1 hc
  have hfill : Closed b (List.replicate n ' ' ++ " ".toList) [] :=
    closed_blanks (fun c hc => hblank c hc ▸ by decide) b
  have hstops : Stops (List.replicate n ' ' ++ " ".toList) :=
    fun c hc => hblank c (List.mem_of_mem_head? hc) ▸ by decide
  have hreads := ((reads_quote s title b).append_closed hfill hstops
    (List.append_ne_nil_of_right_ne_nil _ (by decide))).append_reads h
  simp only [String.toList_append, String.toList_ofList]
  rw [List.append_assoc _ (List.replicate n ' ')]
  exact hreads

/-- **A column reads back**, whatever fills up its name. -/
theorem itemReads_column {s : Settings} {b : Bool} {title : String} {cs : List Clause}
    {c : ColumnDef} (hn : NamesColumn s title)
    (h : TypeReads b (Text.join " " (cs.map (Clause.text s))).toList title c) (width : Nat) :
    ItemReads b ((Item.column title cs).text s width).toList (addColumnDef c) := by
  obtain ⟨ts, hts, hread⟩ := h
  refine ⟨nameToken s title :: ts, reads_columnText s hts width, fun table rest hr => ?_⟩
  refine tableItems_step (nameToken_not_mem s title) (tableItem_name hn ?_)
  change column title (row ts ++ rest) = _
  rw [hread rest (ends_of_itemEnds hr), modifiers_end hr]

/-- A table whose primary key is listed. -/
def addPrimaryKey (titles : List String) (table : TableDef) : TableDef :=
  { table with primaryKey := table.primaryKey ++ titles }

theorem reads_primaryKeyText (s : Settings) (b : Bool) (titles : List String) (width : Nat) :
    Reads b ((Item.primaryKey titles).text s width).toList
      ([.keyword .primary, .keyword .key, .lparen] ++
        [Token.comma].intercalate (titles.map fun n => [nameToken s n]) ++ [.rparen]) := by
  have hopen : Closed b "PRIMARY KEY (".toList [.keyword .primary, .keyword .key, .lparen] :=
    closed_fixed (by decide) b
  have hclose : Closed b ")".toList [.rparen] := closed_fixed (by decide) b
  have hnames := reads_join (quote s) (fun n => [nameToken s n])
    fun n (_ : n ∈ titles) => reads_quote s n b
  unfold Item.text
  simp only [String.toList_append]
  exact ((hopen.append_reads hnames).append_closed hclose (by decide) (by decide)).reads

theorem itemReads_primaryKey (s : Settings) (b : Bool) (titles : List String) (width : Nat) :
    ItemReads b ((Item.primaryKey titles).text s width).toList (addPrimaryKey titles) := by
  refine ⟨_, reads_primaryKeyText s b titles width, fun table rest hr => ?_⟩
  simp only [row_append, row_cons, row_nil, List.cons_append, List.nil_append, List.append_assoc]
  refine tableItems_step (by decide) ?_
  unfold tableItem skipToken
  dsimp only
  rw [if_pos rfl, columnList_row, Step.ok_bind, skipItem_end hr]
  rfl

/-- A table with a foreign key more. -/
def addKeyDef (k : KeySpec) (table : TableDef) : TableDef :=
  { table with foreignKeys := table.foreignKeys ++ [k.keyDef] }

theorem itemReads_foreignKey (s : Settings) {k : KeySpec} (h : k.HasActions) (b : Bool)
    (width : Nat) : ItemReads b ((Item.foreignKey k).text s width).toList (addKeyDef k) := by
  refine ⟨.keyword .foreign :: foreignKeyTokens s k, reads_foreignKey s h b, fun table rest hr => ?_⟩
  refine tableItems_step (by decide) ?_
  change (foreignKey (row (foreignKeyTokens s k) ++ rest)).bind _ = _
  rw [foreignKey_row s h ((ends_of_itemEnds hr).ne (by decide))]
  rfl

/-! ## Lists of items -/

/-- Items on their lines, with the commas between them. -/
theorem closed_itemLines {b : Bool} {items : List String} {tss : List (List Token)}
    (h : List.Forall₂ (fun item ts => Reads b item.toList ts) items tss) :
    Closed b (itemLines items).toList ([Token.comma].intercalate tss) := by
  have hindent : Closed b "    ".toList [] := closed_fixed (by decide) b
  have hcomma : Closed b ",\n".toList [.comma] := closed_fixed (by decide) b
  have hline : Closed b "\n".toList [] := closed_fixed (by decide) b
  induction h with
  | nil => exact .nil
  | cons hts hmore ih =>
    cases hmore with
    | nil =>
      have hlast := (hindent.append_reads hts).append_closed hline (by decide) (by decide)
      rw [List.append_nil] at hlast
      rw [List.intercalate_singleton]
      simp only [itemLines, String.toList_append]
      exact hlast
    | cons hnext hmore =>
      have hfirst := (hindent.append_reads hts).append_closed hcomma (by decide) (by decide)
      rw [List.intercalate_cons_cons]
      simp only [itemLines, String.toList_append] at ih ⊢
      exact hfirst.append ih

/-- **The items of a table read back**, one line for each. -/
theorem reads_itemLines {b : Bool} {items : List (String × (TableDef → TableDef))}
    (h : ∀ i ∈ items, ItemReads b i.1.toList i.2) :
    ∃ ts, Closed b (itemLines (items.map (·.1))).toList ts ∧
      ∀ table rest, nextToken rest = .rparen →
        tableItems table (row ts ++ rest) =
          tableItems (items.foldl (fun t i => i.2 t) table) rest := by
  obtain ⟨tss, hreads, hitems⟩ : ∃ tss,
      List.Forall₂ (fun item ts => Reads b item.toList ts) (items.map (·.1)) tss ∧
        ∀ table rest, nextToken rest = .rparen →
          tableItems table (row ([Token.comma].intercalate tss) ++ rest) =
            tableItems (items.foldl (fun t i => i.2 t) table) rest := by
    induction items with
    | nil => exact ⟨[], .nil, fun _ _ _ => rfl⟩
    | cons i items ih =>
      obtain ⟨ts, hts, hread⟩ := h i (.head _)
      obtain ⟨tss, htss, hmore⟩ := ih fun i hi => h i (.tail _ hi)
      refine ⟨ts :: tss, .cons hts htss, fun table rest hr => ?_⟩
      generalize items.map (·.1) = texts at htss
      cases htss with
      | nil =>
        rw [List.intercalate_singleton, hread table rest (hr ▸ by decide)]
        exact hmore _ rest hr
      | cons _ _ =>
        rw [List.intercalate_cons_cons, List.append_assoc, row_append, List.append_assoc,
          hread table _ (by change Token.comma ∈ itemEnds; decide), List.singleton_append, row_cons,
          List.cons_append, tableItems]
        dsimp only
        rw [if_neg (by decide), if_pos rfl]
        exact hmore _ rest hr
  exact ⟨_, closed_itemLines hreads, hitems⟩

/-! ## Statements -/

/-- The script with `ss` in front. -/
def preceded (ss : List Statement) (script : Script) : Script :=
  { script with statements := ss ++ script.statements }

/-- **One statement**: it is read as `s`, whatever follows. -/
def StatementReads (b : Bool) (text : List Char) (s : Statement) : Prop :=
  ∃ t ts, t ≠ .endOfText ∧ Closed b text (t :: ts) ∧
    ∀ rest, statement ⟨t, 0⟩ (row ts ++ rest) = .ok (some s) rest

/-- **Part of a script**: it is read as `ss`, on whatever lines it stands and whatever follows. -/
def StatementsRead (b : Bool) (text : List Char) (ss : List Statement) : Prop :=
  ∃ ts, Closed b text ts ∧ ∀ (ps rest : Input), ps.map (·.token) = ts →
    Script.ofTokens (ps ++ rest) = preceded ss (Script.ofTokens rest)

/-- **Part of a script that begins with a statement**: it is read as `ss n` if it begins on
line `n`. -/
def BeginsRead (b : Bool) (text : List Char) (ss : Nat → List Statement) : Prop :=
  ∃ t ts, Closed b text (t :: ts) ∧ ∀ n (ps rest : Input), ps.map (·.token) = ts →
    Script.ofTokens (⟨t, n⟩ :: (ps ++ rest)) = preceded (ss n) (Script.ofTokens rest)

theorem preceded_append (ss ss' : List Statement) (script : Script) :
    preceded (ss ++ ss') script = preceded ss (preceded ss' script) := by
  unfold preceded
  rw [List.append_assoc]

section
variable {b : Bool} {xs ys : List Char} {ss ss' : List Statement} {s : Statement}

/-- What has no tokens has no statements. -/
theorem StatementsRead.of_closed (h : Closed b xs []) : StatementsRead b xs [] := by
  refine ⟨[], h, fun ps rest hps => ?_⟩
  rw [List.map_eq_nil_iff.1 hps]
  rfl

theorem StatementsRead.append (h : StatementsRead b xs ss) (h' : StatementsRead b ys ss') :
    StatementsRead b (xs ++ ys) (ss ++ ss') := by
  obtain ⟨ts, hts, hread⟩ := h
  obtain ⟨us, hus, hread'⟩ := h'
  refine ⟨ts ++ us, hts.append hus, fun ps rest hps => ?_⟩
  obtain ⟨qs, rs, rfl, hqs, hrs⟩ := List.map_eq_append_iff.1 hps
  rw [List.append_assoc, hread _ _ hqs, hread' _ _ hrs, preceded_append]

/-- A whole script. -/
theorem StatementsRead.ofTokens (h : StatementsRead b xs ss) {ps : Input}
    (hps : ps.map (·.token) = tokensOf b xs ++ [.endOfText]) :
    Script.ofTokens ps = { statements := ss } := by
  obtain ⟨ts, hts, hread⟩ := h
  have htext := hts []
  rw [List.append_nil, tokensOf_nil, List.append_nil] at htext
  rw [htext] at hps
  obtain ⟨qs, rest, rfl, hqs, hrest⟩ := List.map_eq_append_iff.1 hps
  obtain ⟨p, rest, rfl, hp, -⟩ := List.map_eq_cons_iff.1 hrest
  have hend : Script.ofTokens (p :: rest) = {} := by
    rw [Script.ofTokens]
    exact if_pos hp
  rw [hread _ _ hqs, hend]
  unfold preceded
  rw [List.append_nil]

theorem StatementReads.beginsRead (h : StatementReads b xs s) :
    BeginsRead b xs fun n => [s.onLine n] := by
  obtain ⟨t, ts, ht, hts, hread⟩ := h
  refine ⟨t, ts, hts, fun n ps rest hps => ?_⟩
  rw [Script.ofTokens_cons (p := ⟨t, n⟩) ht, statement_of_row hread hps]
  rfl

/-- A statement that keeps no line. -/
theorem StatementReads.statementsRead (h : StatementReads b xs s) (hs : s.line? = none) :
    StatementsRead b xs [s] := by
  obtain ⟨t, ts, hts, hread⟩ := h.beginsRead
  refine ⟨t :: ts, hts, fun ps rest hps => ?_⟩
  obtain ⟨⟨t, n⟩, qs, rfl, rfl, hqs⟩ := List.map_eq_cons_iff.1 hps
  refine (hread n qs rest hqs).trans ?_
  dsimp only
  rw [Statement.onLine_of_line? hs]

theorem BeginsRead.append {ss : Nat → List Statement} (h : BeginsRead b xs ss)
    (h' : StatementsRead b ys ss') : BeginsRead b (xs ++ ys) fun n => ss n ++ ss' := by
  obtain ⟨t, ts, hts, hread⟩ := h
  obtain ⟨us, hus, hread'⟩ := h'
  refine ⟨t, ts ++ us, hts.append hus, fun n ps rest hps => ?_⟩
  obtain ⟨qs, rs, rfl, hqs, hrs⟩ := List.map_eq_append_iff.1 hps
  rw [List.append_assoc, hread _ _ _ hqs, hread' _ _ hrs, preceded_append]

theorem toList_join_empty (texts : List String) :
    (Text.join "" texts).toList = texts.flatMap String.toList := by
  unfold Text.join
  rw [String.toList_intercalate]
  induction texts with
  | nil => rfl
  | cons text texts ih =>
    cases texts with
    | nil => simp
    | cons next texts =>
      rw [List.map_cons, List.map_cons, List.intercalate_cons_cons, ← List.map_cons, ih]
      simp

/-- Texts one after the other. -/
theorem statementsRead_join {α : Type} (text : α → String) (spelled : α → List Statement)
    (as : List α) (h : ∀ a ∈ as, StatementsRead b (text a).toList (spelled a)) :
    StatementsRead b (Text.join "" (as.map text)).toList (as.flatMap spelled) := by
  rw [toList_join_empty]
  induction as with
  | nil => exact .of_closed .nil
  | cons a as ih =>
    rw [List.map_cons, List.flatMap_cons, List.flatMap_cons]
    exact (h a (.head _)).append (ih fun a' ha' => h a' (.tail _ ha'))

end

theorem skipStatement_semicolon (rest : Input) :
    skipStatement (⟨.semicolon, 0⟩ :: rest) = rest := by
  unfold skipStatement
  exact if_pos rfl

/-! ### Tables -/

theorem createTable_row (s : Settings) (name : String) {body : Input} {table : TableDef}
    {rest : Input} (h : tableItems { name, line := 0 } body = .ok table (⟨.semicolon, 0⟩ :: rest)) :
    createTable 0 (⟨.keyword .if, 0⟩ :: ⟨.keyword .not, 0⟩ :: ⟨.keyword .exists, 0⟩ ::
      ⟨nameToken s name, 0⟩ :: ⟨.lparen, 0⟩ :: body) = .ok (some (.createTable table)) rest := by
  have hskip : skipIfNotExists (⟨.keyword .if, 0⟩ :: ⟨.keyword .not, 0⟩ :: ⟨.keyword .exists, 0⟩ ::
      ⟨nameToken s name, 0⟩ :: ⟨.lparen, 0⟩ :: body) =
        ⟨nameToken s name, 0⟩ :: ⟨.lparen, 0⟩ :: body :=
    rfl
  unfold createTable
  rw [hskip, objectName?_row s name (by simp [nextToken])]
  dsimp only
  rw [h, Step.ok_bind, skipStatement_semicolon]

/-- The text of a table, around its items. -/
theorem closed_tableText (s : Settings) {b : Bool} (name : String) {items : List String}
    {ts : List Token} (h : Closed b (itemLines items).toList ts) :
    Closed b
      ("CREATE TABLE IF NOT EXISTS " ++ quote s name ++ " (\n" ++ itemLines items ++ ");\n").toList
      ([.keyword .create, .keyword .table, .keyword .if, .keyword .not, .keyword .exists] ++
        [nameToken s name] ++ [.lparen] ++ ts ++ [.rparen, .semicolon]) := by
  have hcreate : Closed b "CREATE TABLE IF NOT EXISTS ".toList
      [.keyword .create, .keyword .table, .keyword .if, .keyword .not, .keyword .exists] :=
    closed_fixed (by decide) b
  have hopen : Closed b " (\n".toList [.lparen] := closed_fixed (by decide) b
  have hclose : Closed b ");\n".toList [.rparen, .semicolon] := closed_fixed (by decide) b
  have hname := (hcreate.append_reads (reads_quote s name b)).append_closed hopen
    (by decide) (by decide)
  simp only [String.toList_append]
  exact (hname.append h).append hclose

/-- **A table reads back**, with its items. -/
theorem statementReads_table (s : Settings) {b : Bool} (name : String)
    {items : List (String × (TableDef → TableDef))}
    (h : ∀ i ∈ items, ItemReads b i.1.toList i.2) :
    StatementReads b
      ("CREATE TABLE IF NOT EXISTS " ++ quote s name ++ " (\n" ++ itemLines (items.map (·.1)) ++
        ");\n").toList
      (.createTable (items.foldl (fun t i => i.2 t) { name, line := 0 })) := by
  obtain ⟨ts, hts, hread⟩ := reads_itemLines h
  refine ⟨.keyword .create, _, nofun, closed_tableText s name hts, fun rest => ?_⟩
  simp only [List.append_eq, row_append, row_cons, row_nil, List.cons_append, List.nil_append,
    List.append_assoc]
  refine createTable_row s name ?_
  rw [hread _ _ rfl, tableItems]
  rfl

/-! ### Enumerations -/

theorem stringItems_row (values before : List String) (rest : Input) :
    stringItems before
        (row ([Token.comma].intercalate (values.map fun v => [.str v])) ++ ⟨.rparen, 0⟩ :: rest) =
      .ok (before ++ values) rest := by
  induction values generalizing before with
  | nil =>
    rw [List.append_nil]
    rfl
  | cons value values ih =>
    cases values with
    | nil => rfl
    | cons next values =>
      have hnext := ih (before ++ [value])
      rw [List.map_cons, List.append_assoc] at hnext
      rw [List.map_cons, List.map_cons, List.intercalate_cons_cons]
      exact hnext

theorem createType_row (s : Settings) (name : String) (values : List String) (rest : Input) :
    createType (⟨nameToken s name, 0⟩ :: ⟨.keyword .as, 0⟩ :: ⟨.keyword .enum, 0⟩ ::
        ⟨.lparen, 0⟩ :: (row ([Token.comma].intercalate (values.map fun v => [.str v])) ++
          ⟨.rparen, 0⟩ :: ⟨.semicolon, 0⟩ :: rest)) =
      .ok (some (.createType name values)) rest := by
  unfold createType
  rw [objectName_row s name _ (by simp [nextToken]), Step.ok_bind]
  change (stringItems [] _).bind _ = _
  rw [stringItems_row, Step.ok_bind, skipStatement_semicolon]
  rfl

/-- **An enumeration reads back**, with its values. -/
theorem statementReads_enum {s : Settings} (hd : s.dialect.escapesBackslash = false)
    {e : Enumeration} {b : Bool} (hb : b = false ∨ ∀ v ∈ e.values, '\\' ∉ v.toList) :
    StatementReads b (enumText s e).toList (.createType e.name e.values) := by
  have hcreate : Closed b "CREATE TYPE ".toList [.keyword .create, .keyword .type] :=
    closed_fixed (by decide) b
  have hopen : Closed b " AS ENUM (".toList [.keyword .as, .keyword .enum, .lparen] :=
    closed_fixed (by decide) b
  have hclose : Closed b ");\n".toList [.rparen, .semicolon] := closed_fixed (by decide) b
  have hname := (hcreate.append_reads (reads_quote s e.name b)).append_closed hopen
    (by decide) (by decide)
  have hvalues := reads_join (stringLiteral s.dialect) (fun v => [.str v])
    fun v (hv : v ∈ e.values) => reads_stringLiteral fun hm =>
      hd.trans (hb.resolve_right fun h => h v hv hm).symm
  unfold enumText stringList
  simp only [String.toList_append]
  refine ⟨.keyword .create, _, nofun, (hname.append_reads hvalues).append_closed hclose
    (by decide) (by decide), fun rest => ?_⟩
  simp only [List.append_eq, row_append, row_cons, row_nil, List.cons_append, List.nil_append,
    List.append_assoc]
  exact createType_row s e.name e.values rest

/-! ### Indexes -/

/-- No name of an index is the word that may stand before it. -/
theorem not_isWord_indexName (s : Settings) (t : Table) (c : Column) :
    (nameToken s (indexName t c)).isWord "concurrently" = false := by
  rcases nameToken_cases s (indexName t c) with h | h
  · rw [h]
    unfold Token.isWord Text.sameAscii
    dsimp only
    rw [beq_eq_false_iff_ne]
    intro he
    have hhead := congrArg (fun x => x.toList.head?) he
    simp only [Text.foldAscii, String.toList_ofList, indexName, String.toList_append] at hhead
    exact absurd (show some 'i' = some 'c' from hhead) (by decide)
  · rw [h]
    rfl

theorem onTable_row (s : Settings) (table column : String) (rest : Input) :
    (objectName .indexedTable (skipToken (⟨nameToken s table, 0⟩ :: ⟨.lparen, 0⟩ ::
      ⟨nameToken s column, 0⟩ :: ⟨.rparen, 0⟩ :: ⟨.semicolon, 0⟩ :: rest) (.keyword .only))).bind
      (fun table ts => (columnList (skipUsing ts)).bind fun columns ts =>
        Step.ok (if columns.isEmpty then none else some (Statement.createIndex table columns false))
          (skipStatement ts)) =
      .ok (some (.createIndex table [column] false)) rest := by
  have hname : nextToken (⟨nameToken s table, 0⟩ :: ⟨.lparen, 0⟩ ::
      ⟨nameToken s column, 0⟩ :: ⟨.rparen, 0⟩ :: ⟨.semicolon, 0⟩ :: rest) ≠ .keyword .only := by
    rcases nameToken_cases s table with h | h <;> simp [nextToken, h]
  have husing : skipUsing (⟨.lparen, 0⟩ :: ⟨nameToken s column, 0⟩ :: ⟨.rparen, 0⟩ ::
      ⟨.semicolon, 0⟩ :: rest) = ⟨.lparen, 0⟩ :: ⟨nameToken s column, 0⟩ :: ⟨.rparen, 0⟩ ::
        ⟨.semicolon, 0⟩ :: rest :=
    rfl
  rw [skipToken_of_ne hname, objectName_row s table _ (by simp [nextToken]), Step.ok_bind, husing,
    columnList_name, Step.ok_bind, skipStatement_semicolon]
  rfl

theorem skipIndexName_row (s : Settings) (name : String) (rest : Input) :
    skipIndexName (⟨nameToken s name, 0⟩ :: ⟨.keyword .on, 0⟩ :: rest) = ⟨.keyword .on, 0⟩ :: rest := by
  have hname : nextToken (⟨nameToken s name, 0⟩ :: ⟨.keyword .on, 0⟩ :: rest) ≠ .keyword .on := by
    rcases nameToken_cases s name with h | h <;> simp [nextToken, h]
  unfold skipIndexName
  rw [if_neg hname, objectName?_row s name (by simp [nextToken])]

/-- The tokens between `INDEX` and the name of an index. -/
def indexMarkTokens (s : Settings) : List Token :=
  if s.dialect = .mysql then [] else [.keyword .if, .keyword .not, .keyword .exists]

theorem createIndex_row (s : Settings) (t : Table) (c : Column) (rest : Input) :
    createIndex false (row (indexMarkTokens s) ++ ⟨nameToken s (indexName t c), 0⟩ ::
        ⟨.keyword .on, 0⟩ :: ⟨nameToken s t.name, 0⟩ :: ⟨.lparen, 0⟩ ::
          ⟨nameToken s c.title, 0⟩ :: ⟨.rparen, 0⟩ :: ⟨.semicolon, 0⟩ :: rest) =
      .ok (some (.createIndex t.name [c.title] false)) rest := by
  have hskip : ∀ more, skipIfNotExists (skipWord (row (indexMarkTokens s) ++
      ⟨nameToken s (indexName t c), 0⟩ :: more) "concurrently") =
        ⟨nameToken s (indexName t c), 0⟩ :: more := by
    intro more
    unfold indexMarkTokens
    split
    · have hif : nextToken (⟨nameToken s (indexName t c), 0⟩ :: more) ≠ .keyword .if := by
        rcases nameToken_cases s (indexName t c) with h | h <;> simp [nextToken, h]
      have hword : skipWord (⟨nameToken s (indexName t c), 0⟩ :: more) "concurrently" =
          ⟨nameToken s (indexName t c), 0⟩ :: more := by
        unfold skipWord
        dsimp only
        rw [not_isWord_indexName, if_neg Bool.false_ne_true]
      rw [row_nil, List.nil_append, hword]
      exact if_neg hif
    · rfl
  unfold createIndex
  rw [hskip, skipIndexName_row]
  exact onTable_row s t.name c.title rest

/-- The text of an index. -/
theorem closed_indexText (s : Settings) (t : Table) (c : Column) (b : Bool) :
    Closed b (indexText s t c).toList
      ([.keyword .create, .keyword .index] ++ indexMarkTokens s ++ [nameToken s (indexName t c)] ++
        [.keyword .on] ++ [nameToken s t.name] ++ [.lparen] ++ [nameToken s c.title] ++
          [.rparen, .semicolon]) := by
  have hcreate : Closed b "CREATE INDEX ".toList [.keyword .create, .keyword .index] :=
    closed_fixed (by decide) b
  have hmark : Closed b (if s.dialect = .mysql then "" else "IF NOT EXISTS ").toList
      (indexMarkTokens s) := by
    unfold indexMarkTokens
    split
    · exact .nil
    · exact closed_fixed (by decide) b
  have hon : Closed b " ON ".toList [.keyword .on] := closed_fixed (by decide) b
  have hopen : Closed b " (".toList [.lparen] := closed_fixed (by decide) b
  have hclose : Closed b ");\n".toList [.rparen, .semicolon] := closed_fixed (by decide) b
  have hname := ((hcreate.append hmark).append_reads (reads_quote s (indexName t c) b)).append_closed
    hon (by decide) (by decide)
  have htable := (hname.append_reads (reads_quote s t.name b)).append_closed hopen
    (by decide) (by decide)
  unfold indexText
  simp only [String.toList_append]
  exact (htable.append_reads (reads_quote s c.title b)).append_closed hclose (by decide) (by decide)

/-- **An index reads back.** -/
theorem statementReads_index (s : Settings) (t : Table) (c : Column) (b : Bool) :
    StatementReads b (indexText s t c).toList (.createIndex t.name [c.title] false) := by
  refine ⟨.keyword .create, _, nofun, closed_indexText s t c b, fun rest => ?_⟩
  simp only [List.append_eq, row_append, row_cons, row_nil, List.cons_append, List.nil_append,
    List.append_assoc]
  exact createIndex_row s t c rest

/-! ### Foreign keys -/

theorem addedKey_row (s : Settings) (table name : String) {k : KeySpec} (h : k.HasActions)
    (rest : Input) :
    addedKey table (⟨.keyword .constraint, 0⟩ :: ⟨nameToken s name, 0⟩ :: ⟨.keyword .foreign, 0⟩ ::
        (row (foreignKeyTokens s k) ++ ⟨.semicolon, 0⟩ :: rest)) =
      .ok (some (.alterForeignKey table k.keyDef)) rest := by
  have hskip : skipName (⟨nameToken s name, 0⟩ :: ⟨.keyword .foreign, 0⟩ ::
      (row (foreignKeyTokens s k) ++ ⟨.semicolon, 0⟩ :: rest)) =
        ⟨.keyword .foreign, 0⟩ :: (row (foreignKeyTokens s k) ++ ⟨.semicolon, 0⟩ :: rest) := by
    unfold skipName
    dsimp only
    rw [nameText?_nameToken]
    rfl
  unfold addedKey
  dsimp only
  rw [if_pos (by rfl), List.tail_cons, hskip]
  dsimp only
  rw [foreignKey_row s h (by simp [nextToken]), Step.ok_bind, skipStatement_semicolon]

theorem alter_row (s : Settings) (table : String) (rest : Input) :
    alter (⟨.keyword .table, 0⟩ :: ⟨nameToken s table, 0⟩ :: ⟨.keyword .add, 0⟩ :: rest) =
      addedKey table rest := by
  have hif : nextToken (⟨nameToken s table, 0⟩ :: ⟨.keyword .add, 0⟩ :: rest) ≠ .keyword .if := by
    rcases nameToken_cases s table with h | h <;> simp [nextToken, h]
  have honly : nextToken (⟨nameToken s table, 0⟩ :: ⟨.keyword .add, 0⟩ :: rest) ≠
      .keyword .only := by
    rcases nameToken_cases s table with h | h <;> simp [nextToken, h]
  unfold alter
  dsimp only
  unfold skipIfNotExists
  rw [if_neg hif, skipToken_of_ne honly, objectName?_row s table (by simp [nextToken])]

/-- The text that adds a key goes on, behind the name of its constraint, as the item of a table
does. -/
theorem addKeyText_eq (s : Settings) (name : String) (k : KeySpec) (width : Nat) :
    addKeyText s name k = "ALTER TABLE " ++ quote s k.sourceTable ++ " ADD CONSTRAINT " ++
      quote s name ++ " " ++ (Item.foreignKey k).text s width ++ ";\n" := by
  have hforeign : " FOREIGN KEY (" = " " ++ "FOREIGN KEY (" := rfl
  unfold addKeyText Item.text
  rw [hforeign]
  simp only [String.append_assoc]

/-- The tokens of a statement that adds a key. -/
def addKeyTokens (s : Settings) (name : String) (k : KeySpec) : List Token :=
  [.keyword .alter, .keyword .table, nameToken s k.sourceTable, .keyword .add, .keyword .constraint,
    nameToken s name, .keyword .foreign] ++ foreignKeyTokens s k ++ [.semicolon]

/-- **The text that adds a key** alters the table of its column by a constraint with a name. -/
theorem closed_addKeyText (s : Settings) (name : String) {k : KeySpec} (h : k.HasActions)
    (b : Bool) : Closed b (addKeyText s name k).toList (addKeyTokens s name k) := by
  have halter : Closed b "ALTER TABLE ".toList [.keyword .alter, .keyword .table] :=
    closed_fixed (by decide) b
  have hadd : Closed b " ADD CONSTRAINT ".toList [.keyword .add, .keyword .constraint] :=
    closed_fixed (by decide) b
  have hblank : Closed b " ".toList [] := closed_fixed (by decide) b
  have hclose : Closed b ";\n".toList [.semicolon] := closed_fixed (by decide) b
  have htable := (halter.append_reads (reads_quote s k.sourceTable b)).append_closed hadd
    (by decide) (by decide)
  have hname := (htable.append_reads (reads_quote s name b)).append_closed hblank
    (by decide) (by decide)
  have hitem : Reads b ((Item.foreignKey k).text s 0).toList
      (.keyword .foreign :: foreignKeyTokens s k) := reads_foreignKey s h b
  have hkey := (hname.append_reads hitem).append_closed hclose (by decide) (by decide)
  have htokens : addKeyTokens s name k = [.keyword .alter, .keyword .table] ++
      [nameToken s k.sourceTable] ++ [.keyword .add, .keyword .constraint] ++ [nameToken s name] ++
        [] ++ (.keyword .foreign :: foreignKeyTokens s k) ++ [.semicolon] :=
    rfl
  rw [addKeyText_eq s name k 0, htokens]
  simp only [String.toList_append]
  exact hkey

/-- **A foreign key that is added to a table reads back.** -/
theorem statementReads_addKey (s : Settings) (name : String) {k : KeySpec} (h : k.HasActions)
    (b : Bool) :
    StatementReads b (addKeyText s name k).toList (.alterForeignKey k.sourceTable k.keyDef) := by
  refine ⟨.keyword .alter, _, nofun, closed_addKeyText s name h b, fun rest => ?_⟩
  simp only [List.append_eq, row_append, row_cons, row_nil, List.cons_append, List.nil_append,
    List.append_assoc]
  exact (alter_row s k.sourceTable _).trans (addedKey_row s k.sourceTable name h rest)

end DdlGraph.Ddl
