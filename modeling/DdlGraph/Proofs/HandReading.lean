import DdlGraph.Proofs.MendedTable
import DdlGraph.Proofs.NamedSheet
import DdlGraph.Proofs.StatementText

/-!
# Reading a table written by hand

A table that somebody typed is read as it is meant once it is repaired: as one table under its name,
with its columns in their order under theirs, and each with its type and parameters
(`HandColumn.column`).

* `itemReads_code`, `reads_columns`: the columns, with the commas between them;
* `statementReads_statement`: the statement;
* `recover_normalize_text`: the graph.
-/

namespace DdlGraph.Repair

open DdlGraph.Text DdlGraph.Sql DdlGraph.Ddl DdlGraph.Recovery

/-! ## Columns -/

theorem closed_paramText {gap : Nat} {params : List String} (h : ∀ p ∈ params, IsDigits p)
    (b : Bool) : Closed b (paramText gap params) (paramTokens params) := by
  unfold paramText paramTokens
  split
  · exact .nil
  · have hopen : Closed b ['('] [.lparen] := closed_mark rfl b
    have hclose : Closed b [')'] [.rparen] := closed_mark rfl b
    have hcomma : Closed b [','] [.comma] := closed_mark rfl b
    have hblanks : Closed b (List.replicate gap ' ') [] :=
      closed_blanks (fun c hc => List.eq_of_mem_replicate hc ▸ by decide) b
    have hmark : Closed b (paramMark gap) [.comma] := hcomma.append hblanks
    have hstops : Stops (paramMark gap) := by
      rintro c ⟨⟩
      decide
    have hlist := reads_intercalate hmark hstops (List.cons_ne_nil _ _)
      fun p hp => reads_digits (h p hp) b
    exact (hopen.append_reads hlist).append_closed hclose (by decide) (by decide)

theorem stops_paramText (gap : Nat) (params : List String) : Stops (paramText gap params) := by
  unfold paramText
  split
  · exact nofun
  · rintro c ⟨⟩
    decide

namespace HandColumn

/-- The definition that is meant. -/
def definition (c : HandColumn) : ColumnDef where
  name := c.name.title
  typeName := c.type
  params := c.params

section Proper

variable {c : HandColumn} (h : c.Proper)

include h

/-- **The type of a column**, with its parameters. -/
theorem typeReads_type (b : Bool) :
    TypeReads b (c.type.toList ++ paramText c.gap c.params) c.name.title c.definition := by
  have htype := isNameWord_of_isKnownType h.type h.unlisted
  refine ⟨_, (reads_plainIdentifier htype.plain b).append (closed_paramText h.params b).reads
    (stops_paramText _ _), fun rest hr => ?_⟩
  change Sql.column _ (⟨.ident c.type, 0⟩ :: (row (paramTokens c.params) ++ rest)) = _
  refine column_of_typeTail (.inl rfl) ?_
  rw [typeTail_params h.params rfl, typeTail_end hr]
  rfl

theorem namesColumn_title {s : Settings} (hs : s.caseSensitive = false) :
    NamesColumn s c.name.title := by
  unfold NamesColumn nameToken HandName.title
  rw [hs]
  by_cases hone : c.name.more = []
  · have hjoin : Text.join " " [c.name.first] = c.name.first :=
      String.toList_inj.1 (by rw [toList_joined]; simp [blanked])
    have hword := h.alone hone
    rw [hone, hjoin, (h.name c.name.first (.head _)).plain]
    exact ⟨hword "like" (by decide), hword "exclude" (by decide)⟩
  · rw [notPlain_joined hone]
    exact ⟨rfl, rfl⟩

/-- **A column reads back.** -/
theorem itemReads_code {s : Settings} (hs : s.caseSensitive = false) (b : Bool) :
    ItemReads b (c.code (quote s)) (addColumnDef c.definition) := by
  obtain ⟨ts, hts, hread⟩ := typeReads_type h b
  have hindent : Closed b "  ".toList [] :=
    closed_blanks (fun x hx => eq_blank_of_mem_indent hx ▸ by decide) b
  have hblank : Closed b [' '] [] := closed_blanks (List.forall_mem_singleton.2 rfl) b
  refine ⟨nameToken s c.name.title :: ts, ?_, fun table rest hr => ?_⟩
  · have hname := (reads_quote s c.name.title b).append_closed hblank (by decide) (by decide)
    have hall := hindent.append_reads (hname.append_reads hts)
    simpa only [code, List.append_assoc, List.cons_append, List.nil_append] using hall
  · refine tableItems_step (nameToken_not_mem s _) (tableItem_name (namesColumn_title h hs) ?_)
    change Sql.column c.name.title (row ts ++ rest) = _
    rw [hread rest (ends_of_itemEnds hr), modifiers_end hr]

/-- **A line reads back**, if a comma ends it or the list is at its end. -/
theorem reads_line {s : Settings} (hs : s.caseSensitive = false) (b : Bool) :
    ∃ ts, Closed b (c.line (quote s)) ts ∧
      ∀ table rest, (c.comma = true ∨ nextToken rest = .rparen) →
        tableItems table (row ts ++ rest) = tableItems (addColumnDef c.definition table) rest := by
  obtain ⟨ts, hts, hread⟩ := itemReads_code h hs b
  have hline : Closed b ['\n'] [] := closed_blanks (List.forall_mem_singleton.2 rfl) b
  unfold line lineEnd
  by_cases hc : c.comma = true
  · have hcomma : Closed b [',', '\n'] [.comma] := (closed_mark (c := ',') rfl b).append hline
    have hskip : ∀ table rest, tableItems table (⟨.comma, 0⟩ :: rest) = tableItems table rest := by
      intro table rest
      rw [tableItems, if_neg (by decide), if_pos rfl]
    rw [if_pos hc]
    refine ⟨_, hts.append_closed hcomma (by decide) (by decide), fun table rest _ => ?_⟩
    rw [row_append, List.append_assoc, hread table _ (by change Token.comma ∈ itemEnds; decide)]
    exact hskip _ rest
  · rw [if_neg hc]
    refine ⟨_, hts.append_closed hline (by decide) (by decide), fun table rest hr => ?_⟩
    rw [List.append_nil, hread table rest (hr.resolve_left hc ▸ by decide)]

end Proper

end HandColumn

/-- **The columns read back** in their order. -/
theorem reads_columns {cs : List HandColumn} (h : ∀ c ∈ cs, c.Proper) {s : Settings}
    (hs : s.caseSensitive = false) (b : Bool) :
    ∃ ts, Closed b ((separated cs).flatMap (HandColumn.line (quote s))) ts ∧
      ∀ table rest, nextToken rest = .rparen →
        tableItems table (row ts ++ rest) =
          tableItems { table with columns := table.columns ++ cs.map HandColumn.definition }
            rest := by
  fun_induction separated cs with
  | case1 => exact ⟨[], .nil, fun table rest _ => by rw [List.map_nil, List.append_nil]; rfl⟩
  | case2 c =>
    obtain ⟨ts, hts, hread⟩ := HandColumn.reads_line (h c (.head _)) hs b
    refine ⟨ts, ?_, fun table rest hr => hread table rest (.inr hr)⟩
    rwa [List.flatMap_singleton]
  | case3 c d cs ih =>
    obtain ⟨hc, hcs⟩ := List.forall_mem_cons.1 h
    have hcomma : ({ c with comma := true } : HandColumn).Proper := { hc with }
    obtain ⟨ts, hts, hread⟩ := HandColumn.reads_line hcomma hs b
    obtain ⟨us, hus, hmore⟩ := ih hcs
    refine ⟨ts ++ us, hts.append hus, fun table rest hr => ?_⟩
    rw [row_append, List.append_assoc, hread table _ (.inl rfl), hmore _ rest hr]
    unfold addColumnDef
    rw [List.append_assoc]
    rfl

/-! ## Statements -/

theorem createTable_name (s : Settings) (name : String) {body : Input} {table : TableDef}
    {rest : Input} (h : tableItems { name, line := 0 } body = .ok table (⟨.semicolon, 0⟩ :: rest)) :
    createTable 0 (⟨nameToken s name, 0⟩ :: ⟨.lparen, 0⟩ :: body) =
      .ok (some (.createTable table)) rest := by
  have hskip : skipIfNotExists (⟨nameToken s name, 0⟩ :: ⟨.lparen, 0⟩ :: body) =
      ⟨nameToken s name, 0⟩ :: ⟨.lparen, 0⟩ :: body := by
    unfold skipIfNotExists
    rcases nameToken_cases s name with ht | ht <;> rw [ht] <;> rfl
  unfold createTable
  rw [hskip, objectName?_row s name (by simp [nextToken])]
  dsimp only
  rw [h, Step.ok_bind, Ddl.skipStatement_semicolon]

namespace HandTable

/-- The definition that is meant. -/
def definition (t : HandTable) : TableDef where
  name := t.name.title
  line := 0
  columns := t.columns.map HandColumn.definition

variable {t : HandTable} (h : t.Proper)

include h

/-- **The statement reads back.** -/
theorem statementReads_statement {s : Settings} (hs : s.caseSensitive = false) (b : Bool) :
    StatementReads b (t.mended.statement (quote s)) (.createTable t.definition) := by
  obtain ⟨ts, hts, hread⟩ := reads_columns h.columns hs b
  have hspelled : spells Lexeme.isMark "CREATE TABLE " [.keyword .create, .keyword .table] = true ∧
      spells Lexeme.isMark ");" [.rparen, .semicolon] = true := by
    decide +kernel
  have hwords : Closed b "CREATE TABLE ".toList [.keyword .create, .keyword .table] :=
    closed_literal hspelled.1 b
  have hopen : Closed b " (".toList [.lparen] := closed_fixed (by decide) b
  have hline : Closed b "\n".toList [] := closed_fixed (by decide) b
  have hclose : Closed b ");".toList [.rparen, .semicolon] := closed_literal hspelled.2 b
  have hname := (hwords.append_reads (reads_quote s t.name.title b)).append_closed hopen
    (by decide) (by decide)
  have hall := ((hname.append hline).append hts).append hclose
  have htext : t.mended.statement (quote s) =
      "CREATE TABLE ".toList ++ (quote s t.name.title).toList ++ " (".toList ++ "\n".toList ++
        (separated t.columns).flatMap (HandColumn.line (quote s)) ++ ");".toList := by
    have hfront : "CREATE TABLE ".toList = "CREATE TABLE".toList ++ [' '] := rfl
    have hmid : " (".toList = [' ', '('] := rfl
    have hend : "\n".toList = ['\n'] := rfl
    unfold statement header body mended
    rw [hfront, hmid, hend]
    simp only [List.append_assoc, List.cons_append, List.nil_append]
  refine ⟨.keyword .create, .keyword .table :: nameToken s t.name.title :: .lparen ::
    (ts ++ [.rparen, .semicolon]), nofun, ?_, fun rest => ?_⟩
  · rw [htext]
    simpa only [List.append_assoc, List.cons_append, List.nil_append, List.append_nil] using hall
  · refine createTable_name s _ ?_
    change tableItems _ (row (ts ++ [.rparen, .semicolon]) ++ rest) = _
    rw [row_append, List.append_assoc, hread _ _ rfl, row_cons, List.cons_append, tableItems,
      if_pos rfl]
    rfl

/-- **The script of the statement** is a table on some line. -/
theorem exists_ofText_statement {s : Settings} (hs : s.caseSensitive = false) :
    ∃ n, Script.ofText (.ofList (t.mended.statement (quote s))) =
      { statements := [.createTable { t.definition with line := n }] } := by
  generalize htext : String.ofList (t.mended.statement (quote s)) = text
  have hchars : text.toList = t.mended.statement (quote s) := htext ▸ String.toList_ofList
  obtain ⟨u, us, hus, hread⟩ :=
    (statementReads_statement h hs (Dialect.detect text).escapesBackslash).beginsRead
  have htokens := tokens_map_token (Dialect.detect text).escapesBackslash text
  have hwhole := hus []
  rw [List.append_nil, tokensOf_nil, List.append_nil] at hwhole
  rw [hchars, hwhole] at htokens
  obtain ⟨p, ps, hp, rfl, hps⟩ := List.map_eq_cons_iff.1 htokens
  obtain ⟨qs, rest, rfl, hqs, hrest⟩ := List.map_eq_append_iff.1 hps
  obtain ⟨e, rest, rfl, he, -⟩ := List.map_eq_cons_iff.1 hrest
  have hend : Script.ofTokens (e :: rest) = {} := by
    rw [Script.ofTokens]
    exact if_pos he
  refine ⟨p.line, ?_⟩
  unfold Script.ofText
  rw [hp]
  refine (hread p.line qs (e :: rest) hqs).trans ?_
  rw [hend]
  rfl

end HandTable

/-! ## Graphs -/

/-- The column that is meant: a serial type counts up and makes a primary key. -/
def HandColumn.column (c : HandColumn) : Column where
  title := c.name.title
  dataType := (BaseType.normalize c.type).name
  params := c.params
  constraints := if (BaseType.normalize c.type).serial then [.primary] else []
  autoIncrement := (BaseType.normalize c.type).serial

/-- Columns of different titles keep them. -/
theorem newColumns_of_nodup (enums : List Enumeration) {definitions : List ColumnDef} {t : Table}
    (h : (t.foldedTitles ++ definitions.map fun c => foldAscii c.name).Nodup) :
    newColumns enums t definitions =
      definitions.map fun c => Draft.columnOf (typeOf enums c) c := by
  induction definitions generalizing t with
  | nil => rfl
  | cons c cs ih =>
    have hfree : t.freeTitle c.name = c.name := by
      have hnot : t.takes c.name = false := by
        rw [Bool.eq_false_iff]
        intro hm
        exact (List.nodup_append.1 h).2.2 _ (List.contains_iff_mem.1 hm) _ (.head _) rfl
      rw [Table.freeTitle_eq, freeName, hnot]
      rfl
    have htitles : (t.addColumn (Draft.columnOf (typeOf enums c) c)).foldedTitles =
        t.foldedTitles ++ [foldAscii c.name] := by
      have hname : (Draft.columnOf (typeOf enums c) c).title = c.name := rfl
      unfold Table.addColumn Table.foldedTitles
      rw [hname, hfree, List.map_append]
      rfl
    rw [newColumns, hfree, ih (by rwa [htitles, List.append_assoc])]
    rfl

theorem usesAt_nil (id : String) (columns : List Column) : Draft.usesAt [] id columns = [] := by
  refine List.filterMap_eq_nil_iff.2 fun c _ => ?_
  unfold typedBy?
  cases c.enumName? <;> rfl

theorem HandColumn.columnOf_definition (c : HandColumn) :
    Draft.columnOf (typeOf [] c.definition) c.definition = c.column := by
  have hknown : Draft.knownEnum? { pool := {}, enums := [] } c.type = none := by
    unfold Draft.knownEnum?
    split
    · rfl
    · cases afterMark? enumTypeMark.toList (lower c.type).toList <;> rfl
  have htype : typeOf [] c.definition =
      ⟨(BaseType.normalize c.type).name, c.params, (BaseType.normalize c.type).serial⟩ := by
    unfold typeOf definition
    rw [hknown]
  rw [htype]
  unfold Draft.columnOf Draft.constraintsOf column definition
  cases (BaseType.normalize c.type).serial <;> rfl

namespace HandTable

variable {t : HandTable} (h : t.Proper) (n : Nat)

include h

theorem tableOf_definition : tableOf [] { t.definition with line := n } =
    { id := "", name := t.name.title, columns := t.columns.map HandColumn.column } := by
  have hnodup : (({ id := "", name := t.name.title } : Table).foldedTitles ++
      (t.columns.map HandColumn.definition).map fun c => foldAscii c.name).Nodup := by
    rw [List.map_map]
    exact h.distinct
  have hcolumns := newColumns_of_nodup [] hnodup
  rw [List.map_map] at hcolumns
  unfold tableOf
  exact congrArg (fun columns => ({ id := "", name := t.name.title, columns } : Table))
    (hcolumns.trans (List.map_congr_left fun c _ => c.columnOf_definition))

omit h in
theorem keysOfTable_definition : keysOfTable [] { t.definition with line := n } = [] := by
  refine List.append_eq_nil_iff.2 ⟨List.filterMap_eq_nil_iff.2 fun x hx => ?_, rfl⟩
  obtain ⟨c, -, hc⟩ := List.mem_map.1 (List.of_mem_zip hx).1
  rw [← hc]
  rfl

/-- **The draft of the statement** has the table that is meant and nothing else. -/
theorem ofStatements_definition :
    ∃ d table, Draft.ofStatements none [.createTable { t.definition with line := n }] = d ∧
      d.tables = [table] ∧ table.name = t.name.title ∧
        table.columns = t.columns.map HandColumn.column ∧
          d.enums = [] ∧ d.pending = [] ∧ d.enumUses = [] ∧ d.warnings = [] := by
  generalize hx : ({ t.definition with line := n } : TableDef) = x
  let start : Draft := { pool := IdPool.ofGraph? none }
  have hid : start.tableId? x.name = none := rfl
  have hlisted : ∀ c ∈ x.columns, c.inlineValues = none := by
    subst hx
    exact List.forall_mem_map.2 fun c _ => rfl
  obtain ⟨table, hs⟩ := Draft.addTable_step (Prior.ofGraph? none) hid
  have htables : (Draft.addTable (Prior.ofGraph? none) start x).tables = [table] := hs.tables
  obtain ⟨hbare, henums, hpending, huses, hwarnings⟩ := Draft.addTable_unlisted hid hlisted hs
    (by rw [htables]; exact List.nodup_singleton _)
  have hmeant := hbare.trans (hx ▸ tableOf_definition h n)
  have hkeys : keysOfTable start.enums x = [] := hx ▸ keysOfTable_definition n
  have hmissing : missingOfTable start.enums x = [] := hx ▸ rfl
  rw [hkeys] at hpending
  rw [hmissing] at hwarnings
  refine ⟨_, table, rfl, htables, congrArg Table.name hmeant, congrArg Table.columns hmeant,
    henums, hpending, ?_, hwarnings⟩
  exact huses.trans (usesAt_nil _ _)

/-- **A table written by hand is read as it is meant**, without a warning: its name and the names
of its columns are whole, whatever their words, and no comma is missed. -/
theorem recover_normalize_text :
    ∃ table, recover (normalize t.text) none =
        .ok { graph := { tables := [table] }, warnings := [] } ∧
      table.name = t.name.title ∧ table.columns = t.columns.map HandColumn.column := by
  obtain ⟨n, hscript⟩ := exists_ofText_statement h
    (s := { caseSensitive := false, dialect := Dialect.detect t.text }) rfl
  obtain ⟨d, table, hd, htables, hname, hcolumns, henums, hpending, huses, hwarnings⟩ :=
    ofStatements_definition h n
  refine ⟨table, ?_, hname, hcolumns⟩
  have hlinks : d.links = (d, []) := by
    unfold Draft.links
    rw [hpending, huses]
    rfl
  unfold recover Outcome.ofDraft
  rw [normalize_text h, hscript]
  dsimp only
  rw [hd, hlinks]
  dsimp only
  rw [htables, henums, hwarnings]
  rfl

end HandTable

/-- A table without quotes around its names, and with one comma. -/
def newPeople : HandTable where
  name := ⟨"new", ["people"]⟩
  columns :=
    [{ name := ⟨"id", []⟩, type := "Serial", params := [], gap := 0, comma := true },
     { name := ⟨"date", ["of", "birth"]⟩, type := "DATE", params := [], gap := 0, comma := false },
     { name := ⟨"body", ["height"]⟩, type := "decimal", params := ["5", "2"], gap := 1,
       comma := false }]

theorem recover_normalize_newPeople :
    newPeople.text = "CREATE TABLE new people (\n  id Serial,\n  date of birth DATE\n" ++
      "  body height decimal(5, 2)\n);" ∧
    newPeople.Proper ∧
    ∃ table, recover (normalize newPeople.text) none =
        .ok { graph := { tables := [table] }, warnings := [] } ∧
      table.name = "new people" ∧
      table.columns =
        [{ title := "id", dataType := "integer", constraints := [.primary], autoIncrement := true },
         { title := "date of birth", dataType := "date" },
         { title := "body height", dataType := "decimal", params := ["5", "2"] }] := by
  have hproper : newPeople.Proper := by decide +kernel
  obtain ⟨table, hrecover, hname, hcolumns⟩ := HandTable.recover_normalize_text hproper
  exact ⟨by decide +kernel, hproper, table, hrecover, hname.trans (by decide +kernel),
    hcolumns.trans (by decide +kernel)⟩

end DdlGraph.Repair
