import DdlGraph.Proofs.ColumnMap
import DdlGraph.Proofs.ScriptText
import DdlGraph.Proofs.TypeText

/-!
# Canonical graphs

Graphs that a text in PostgreSQL can hold without loss: names differ in more than case, types are
those that PostgreSQL has, and each foreign key is held by an edge and by its column alike
(`Graph.Canonical`).

* `keys_ext`: a key is known by its source column;
* `mem_keysOf`: the keys of the graph are those of its columns;
* `keyOfColumn?_inside`: the key that stands with a column is its own.
-/

namespace DdlGraph

open Sql Ddl

/-! ## Canonical graphs -/

/-- **Types of a canonical graph**: an enumeration of the graph, or a type that PostgreSQL has. Only
primary keys count up. -/
inductive CanonicalType (g : Graph) (c : Column) : Prop
  | enumeration (e : Enumeration) (mem : e ∈ g.enums) (type : c.dataType = e.columnType)
    (params : c.params = []) (up : c.autoIncrement = false)
  | plain (base : String) (n : Nat) (mem : base ∈ plainTypes) (type : c.dataType = arrayOf base n)
    (params : ∀ p ∈ c.params, IsDigits p) (up : c.autoIncrement = false)
  | double (type : c.dataType = "double") (params : c.params = []) (up : c.autoIncrement = false)
  | counting (mem : c.dataType ∈ countingTypes) (params : c.params = [])
    (up : c.autoIncrement = true) (primary : c.isPrimary = true)

/-- The name of the type of a column in a text, without its parameters. -/
def writtenType (c : Column) : String :=
  match c.enumName? with
  | some name => name
  | none =>
    if countsUp c then renderCountingType c.dataType .postgresql
    else renderType c.dataType [] .postgresql

/-- **Columns of a canonical graph.** No enumeration has the name of a type that is written. -/
structure CanonicalColumn (g : Graph) (c : Column) : Prop where
  bar : '|' ∉ c.title.toList
  type : CanonicalType g c
  typeName : c.enumName? = none → ∀ e ∈ g.enums, Text.sameAscii e.name (writtenType c) = false
  constraints : c.constraints.Nodup
  index : c.has .index = true → c.isPrimary = false
  default : ∀ v ∈ c.defaultValue, SafeDefault v

/-- **Foreign key of a canonical graph.** If its target is in the graph, an edge starts at its
column; if not, no table has such a column. -/
structure CanonicalKey (g : Graph) (t : Table) (c : Column) (k : ForeignKey) : Prop where
  onDelete : ∀ text ∈ k.onDelete, IsAction text
  onUpdate : ∀ text ∈ k.onUpdate, IsAction text
  resolved : k.resolved = true → ∃ e ∈ g.foreignKeys, e.source = t.id ∧ e.sourceColumn = c.title
  unresolved : k.resolved = false → ∀ t' ∈ g.tables, Text.lower t'.name = Text.lower k.table →
    t'.findColumn? k.column = none

/-- **Edge of a canonical graph**: it joins two columns, and the first refers to the second. -/
def CanonicalEdge (g : Graph) (e : Edge) : Prop :=
  ∃ t ∈ g.tables, ∃ c ∈ t.columns, ∃ t' ∈ g.tables, ∃ c' ∈ t'.columns, ∃ k,
    e.source = t.id ∧ e.sourceColumn = c.title ∧ e.target = t'.id ∧ e.targetColumn = c'.title ∧
      c.foreignKey = some k ∧ k.table = t'.name ∧ k.column = c'.title ∧ k.resolved = true

/-- **Canonical graph.** -/
structure Graph.Canonical (g : Graph) : Prop where
  nonempty : g.tables ≠ []
  tableIds : (g.tables.map (·.id)).Nodup
  tableNames : (g.tables.map fun t => Text.lower t.name).Nodup
  tableBars : ∀ t ∈ g.tables, '|' ∉ t.name.toList
  titles : ∀ t ∈ g.tables, (t.columns.map fun c => Text.lower c.title).Nodup
  enumNames : (g.enums.map fun e => Text.lower e.name).Nodup
  enumNamed : ∀ e ∈ g.enums, e.name ≠ ""
  values : ∀ e ∈ g.enums, e.values.Nodup
  columns : ∀ t ∈ g.tables, ∀ c ∈ t.columns, CanonicalColumn g c
  keys : ∀ t ∈ g.tables, ∀ c ∈ t.columns, ∀ k ∈ c.foreignKey, CanonicalKey g t c k
  edges : ∀ e ∈ g.foreignKeys, CanonicalEdge g e

namespace Graph.Canonical

variable {g : Graph} (hg : g.Canonical)
include hg

/-! ## What is found in a canonical graph -/

theorem table_ext {t t' : Table} (ht : t ∈ g.tables) (ht' : t' ∈ g.tables)
    (h : Text.lower t.name = Text.lower t'.name) : t = t' :=
  List.inj_on_of_nodup_map hg.tableNames ht ht' h

theorem column_ext {t : Table} (ht : t ∈ g.tables) {c c' : Column} (hc : c ∈ t.columns)
    (hc' : c' ∈ t.columns) (h : Text.lower c.title = Text.lower c'.title) : c = c' :=
  List.inj_on_of_nodup_map (hg.titles t ht) hc hc' h

theorem tableById?_eq {t : Table} (ht : t ∈ g.tables) : tableById? g.tables t.id = some t :=
  find?_of_nodup hg.tableIds ht (beq_self_eq_true _) fun _ _ h => eq_of_beq h

theorem column?_eq {t : Table} (ht : t ∈ g.tables) {c : Column} (hc : c ∈ t.columns) :
    t.column? c.title = some c :=
  find?_of_nodup (hg.titles t ht) hc (beq_self_eq_true _) fun _ _ h =>
    congrArg Text.lower (eq_of_beq h)

theorem enumByName?_eq {e : Enumeration} (he : e ∈ g.enums) :
    DdlGraph.enumByName? g.enums e.name = some e :=
  find?_of_nodup hg.enumNames he (sameAscii_iff.2 rfl) fun _ _ h => Text.lower_of_sameAscii h

theorem prior_table? {t : Table} (ht : t ∈ g.tables) :
    (Prior.ofGraph g).table? t.name = some t :=
  Prior.table?_ofGraph hg.tableNames ht

theorem prior_enum? {e : Enumeration} (he : e ∈ g.enums) :
    (Prior.ofGraph g).enum? e.name = some e :=
  Prior.enum?_ofGraph hg.enumNames he

end Graph.Canonical

/-! ## Keys of a canonical graph -/

/-- The key that a column of a table holds. -/
def Ddl.KeySpec.ofForeignKey (t : Table) (c : Column) (k : ForeignKey) : KeySpec where
  sourceTable := t.name
  sourceColumn := c.title
  targetTable := k.table
  targetColumn := k.column
  onDelete := k.onDelete
  onUpdate := k.onUpdate

/-- The key is that of a column of the graph. -/
def IsKeyOf (g : Graph) (key : KeySpec) : Prop :=
  ∃ t ∈ g.tables, ∃ c ∈ t.columns, ∃ k, c.foreignKey = some k ∧ key = .ofForeignKey t c k

theorem KeySpec.lower_source {k k' : KeySpec} (ht : '|' ∉ k.sourceTable.toList)
    (ht' : '|' ∉ k'.sourceTable.toList) (hc : '|' ∉ k.sourceColumn.toList)
    (hc' : '|' ∉ k'.sourceColumn.toList) (h : k.canonical = k'.canonical) :
    Text.lower k.sourceTable = Text.lower k'.sourceTable ∧
      Text.lower k.sourceColumn = Text.lower k'.sourceColumn := by
  have hsplit : ∀ k : KeySpec, k.canonical = Text.lower (k.sourceTable ++ "|" ++
      (k.sourceColumn ++ "|" ++ (k.targetTable ++ "|" ++ k.targetColumn))) := by
    intro k
    unfold KeySpec.canonical edgeKey
    simp only [String.append_assoc]
  rw [hsplit, hsplit] at h
  obtain ⟨htable, hrest⟩ := Text.lower_bar_inj ht ht' h
  exact ⟨htable, (Text.lower_bar_inj hc hc' hrest).1⟩

namespace Graph.Canonical

variable {g : Graph} (hg : g.Canonical)
include hg

/-- A key is known by its source column, case left aside. -/
theorem key_ext {key key' : KeySpec} (h : IsKeyOf g key) (h' : IsKeyOf g key')
    (ht : Text.lower key.sourceTable = Text.lower key'.sourceTable)
    (hc : Text.lower key.sourceColumn = Text.lower key'.sourceColumn) : key = key' := by
  obtain ⟨t, htm, c, hcm, k, hk, rfl⟩ := h
  obtain ⟨t', htm', c', hcm', k', hk', rfl⟩ := h'
  obtain rfl := hg.table_ext htm htm' ht
  obtain rfl := hg.column_ext htm hcm hcm' hc
  rw [hk] at hk'
  rw [Option.some.inj hk']

theorem bars {key : KeySpec} (h : IsKeyOf g key) :
    '|' ∉ key.sourceTable.toList ∧ '|' ∉ key.sourceColumn.toList := by
  obtain ⟨t, ht, c, hc, k, -, rfl⟩ := h
  exact ⟨hg.tableBars t ht, (hg.columns t ht c hc).bar⟩

/-- The key of an edge is that of its column. -/
theorem ofEdge?_eq {e : Edge} {t : Table} (ht : t ∈ g.tables) {c : Column} (hc : c ∈ t.columns)
    {t' : Table} (ht' : t' ∈ g.tables) {c' : Column} {k : ForeignKey} (hs : e.source = t.id)
    (hsc : e.sourceColumn = c.title) (hgt : e.target = t'.id) (hgc : e.targetColumn = c'.title)
    (hk : c.foreignKey = some k) (htable : k.table = t'.name) (hcolumn : k.column = c'.title) :
    KeySpec.ofEdge? g e = some (.ofForeignKey t c k) := by
  have hsource : g.table? e.source = some t := hs ▸ hg.tableById?_eq ht
  have htarget : g.table? e.target = some t' := hgt ▸ hg.tableById?_eq ht'
  have hactions : ((t.column? e.sourceColumn).bind (·.foreignKey)).filter
      (fun k => Text.sameAscii k.table t'.name) = some k := by
    rw [hsc, hg.column?_eq ht hc, Option.bind_some, hk, Option.filter_some,
      if_pos (sameAscii_iff.2 (congrArg _ htable))]
  unfold KeySpec.ofEdge?
  rw [hsource, htarget]
  change some _ = _
  rw [hactions, hsc, hgc, ← htable, ← hcolumn]
  rfl

theorem mem_allKeys (key : KeySpec) : key ∈ allKeys g ↔ IsKeyOf g key := by
  unfold allKeys
  rw [List.mem_append, List.mem_filterMap, List.mem_flatMap]
  constructor
  · rintro (⟨e, he, hkey⟩ | ⟨t, ht, hkey⟩)
    · obtain ⟨t, ht, c, hc, t', ht', c', -, k, hs, hsc, hgt, hgc, hk, htable, hcolumn, -⟩ :=
        hg.edges e he
      rw [hg.ofEdge?_eq ht hc ht' hs hsc hgt hgc hk htable hcolumn] at hkey
      exact ⟨t, ht, c, hc, k, hk, (Option.some.inj hkey).symm⟩
    · obtain ⟨c, hc, hkey⟩ := List.mem_filterMap.1 hkey
      obtain ⟨k, hk, rfl⟩ := Option.map_eq_some_iff.1 hkey
      exact ⟨t, ht, c, hc, k, (Option.filter_eq_some_iff.1 hk).1, rfl⟩
  · rintro ⟨t, ht, c, hc, k, hk, rfl⟩
    cases hr : k.resolved with
    | true =>
      obtain ⟨e, he, hs, hsc⟩ := (hg.keys t ht c hc k hk).resolved hr
      obtain ⟨u, hu, d, hd, t', ht', c', -, k', hs', hsc', hgt, hgc, hk', htable, hcolumn, -⟩ :=
        hg.edges e he
      obtain rfl := List.inj_on_of_nodup_map hg.tableIds ht hu (hs.symm.trans hs')
      obtain rfl := hg.column_ext ht hc hd (congrArg Text.lower (hsc.symm.trans hsc'))
      rw [hk] at hk'
      obtain rfl := Option.some.inj hk'
      exact .inl ⟨e, he, hg.ofEdge?_eq ht hc ht' hs hsc hgt hgc hk htable hcolumn⟩
    | false =>
      refine .inr ⟨t, ht, List.mem_filterMap.2 ⟨c, hc, ?_⟩⟩
      unfold KeySpec.ofColumn?
      rw [hk, Option.filter_some, hr]
      rfl

/-- **Keys of a canonical graph** are those of its columns. -/
theorem mem_keysOf (key : KeySpec) : key ∈ keysOf g ↔ IsKeyOf g key := by
  have hentries : ∀ x ∈ firstOfEach [] ((allKeys g).map fun k => (k.canonical, k)),
      x.1 = x.2.canonical ∧ IsKeyOf g x.2 := by
    intro x hx
    obtain ⟨k, hk, rfl⟩ := List.mem_map.1 (mem_of_mem_firstOfEach hx)
    exact ⟨rfl, (hg.mem_allKeys k).1 hk⟩
  unfold keysOf
  rw [List.mem_map]
  constructor
  · rintro ⟨x, hx, rfl⟩
    exact (hentries x hx).2
  · intro h
    have hmem : (key.canonical, key) ∈ (allKeys g).map fun k => (k.canonical, k) :=
      List.mem_map.2 ⟨key, (hg.mem_allKeys key).2 h, rfl⟩
    obtain ⟨x, hx, he⟩ := exists_mem_firstOfEach hmem (List.not_mem_nil (a := key.canonical))
    obtain ⟨hcanonical, hkey⟩ := hentries x hx
    obtain ⟨ht, hc⟩ := KeySpec.lower_source (hg.bars hkey).1 (hg.bars h).1 (hg.bars hkey).2
      (hg.bars h).2 (hcanonical.symm.trans he)
    exact ⟨x, hx, hg.key_ext hkey h ht hc⟩

/-- **The key that stands with a column** inside of its table is its own. -/
theorem keyOfColumn?_inside (s : Settings) {t : Table} (ht : t ∈ g.tables) {c : Column}
    (hc : c ∈ t.columns) : keyOfColumn? (insideKeys s (keysOf g) t) c =
      if inlinesKeys s then c.foreignKey.map (.ofForeignKey t c) else none := by
  unfold insideKeys
  split
  · have hown : ∀ key ∈ ((keysOf g).filter (·.sourceTable == t.name)).reverse,
        (key.sourceColumn == c.title) = true →
          ∃ k, c.foreignKey = some k ∧ key = .ofForeignKey t c k := by
      intro key hkey hcol
      obtain ⟨hm, htable⟩ := List.mem_filter.1 (List.mem_reverse.1 hkey)
      obtain ⟨u, hu, d, hd, k, hk, rfl⟩ := (hg.mem_keysOf key).1 hm
      obtain rfl := hg.table_ext hu ht (congrArg Text.lower (eq_of_beq htable))
      obtain rfl := hg.column_ext hu hd hc (congrArg Text.lower (eq_of_beq hcol))
      exact ⟨k, hk, rfl⟩
    unfold keyOfColumn?
    cases hf : ((keysOf g).filter (·.sourceTable == t.name)).reverse.find?
        (·.sourceColumn == c.title) with
    | some key =>
      have hcol := List.find?_some hf
      obtain ⟨k, hk, rfl⟩ := hown key (List.mem_of_find?_eq_some hf) hcol
      rw [hk]
      rfl
    | none =>
      cases hk : c.foreignKey with
      | none => rfl
      | some k =>
        have hm : KeySpec.ofForeignKey t c k ∈
            ((keysOf g).filter (·.sourceTable == t.name)).reverse :=
          List.mem_reverse.2 (List.mem_filter.2
            ⟨(hg.mem_keysOf _).2 ⟨t, ht, c, hc, k, hk, rfl⟩, beq_self_eq_true _⟩)
        exact absurd (beq_self_eq_true c.title) (List.find?_eq_none.1 hf _ hm)
  · rfl

theorem hasActions {key : KeySpec} (h : IsKeyOf g key) : key.HasActions := by
  obtain ⟨t, ht, c, hc, k, hk, rfl⟩ := h
  exact ⟨(hg.keys t ht c hc k hk).onDelete, (hg.keys t ht c hc k hk).onUpdate⟩

end Graph.Canonical

/-! ## Types of a canonical graph -/

/-- **What the type of a column is read as.** -/
def postgresTyped (c : Column) (_ : Bool) : ColumnDef where
  name := c.title
  typeName := writtenType c
  params := c.params

theorem renderType_plain_nil {base : String} (h : base ∈ plainTypes) (n : Nat) :
    renderType (arrayOf base n) [] .postgresql = arrayOf (Text.upper base) n := by
  rw [← String.toList_inj, renderType_plain h, toList_arrayOf]
  unfold typeText
  rw [if_pos (by rfl), List.append_nil]

theorem countsUp_double : isSerialType "double" = false := by decide +kernel

theorem renderType_double : renderType "double" [] .postgresql = "DOUBLE PRECISION" := by
  decide

theorem head?_arrayOf_plain {base : String} (h : base ∈ plainTypes) (n : Nat) :
    (arrayOf base n).toList.head? ≠ some 'e' := by
  have hp := plainName_of_mem h
  obtain ⟨x, xs, hx⟩ := List.exists_cons_of_ne_nil hp.word.nonempty
  have hhead := hp.head
  rw [hx] at hhead
  rw [toList_arrayOf, hx]
  exact hhead

/-- Types that are no enumeration, for columns that do not count up. -/
structure FixedType (c : Column) (written : String) : Prop where
  noEnum : c.enumName? = none
  noCount : countsUp c = false
  written : renderType c.dataType [] .postgresql = written

theorem fixedType_plain {c : Column} {base : String} {n : Nat} (h : base ∈ plainTypes)
    (ht : c.dataType = arrayOf base n) (hu : c.autoIncrement = false) :
    FixedType c (arrayOf (Text.upper base) n) := by
  constructor
  · apply enumName?_of_head
    rw [ht]
    exact head?_arrayOf_plain h n
  · unfold countsUp
    rw [hu, ht, isSerialType_plain h]
    rfl
  · rw [ht, renderType_plain_nil h]

theorem fixedType_double {c : Column} (ht : c.dataType = "double") (hu : c.autoIncrement = false) :
    FixedType c "DOUBLE PRECISION" := by
  constructor
  · apply enumName?_of_head
    rw [ht]
    decide
  · unfold countsUp
    rw [hu, ht, countsUp_double]
    rfl
  · rw [ht, renderType_double]

theorem FixedType.writtenType_eq {c : Column} {written : String} (h : FixedType c written) :
    writtenType c = written := by
  unfold writtenType
  rw [h.noEnum, h.noCount, h.written]
  rfl

theorem enumName?_counting {c : Column} (h : c.dataType ∈ countingTypes) : c.enumName? = none := by
  have hhead : ∀ base ∈ countingTypes, base.toList.head? ≠ some 'e' := by decide
  exact enumName?_of_head (hhead _ h)

theorem writtenType_counting {c : Column} (h : c.dataType ∈ countingTypes)
    (hu : c.autoIncrement = true) : writtenType c = renderCountingType c.dataType .postgresql := by
  unfold writtenType countsUp
  rw [enumName?_counting h, hu]
  rfl

theorem typeClause_postgresql {s : Settings} (hs : s.dialect = .postgresql) (g : Graph)
    (c : Column) (keyHere : Bool) : (typeClause s g c keyHere).isPrimaryKey = false := by
  unfold typeClause
  rw [hs]
  split
  · rfl
  · split <;> rfl

theorem typeSays_postgres {s : Settings} (hs : s.dialect = .postgresql) (g : Graph) (c : Column)
    (keyHere : Bool) : TypeSays (typeClause s g c keyHere) c (postgresTyped c keyHere) :=
  ⟨rfl, (typeClause_postgresql hs g c keyHere).symm, rfl, rfl, rfl, rfl⟩

section
variable {s : Settings} (hs : s.dialect = .postgresql) {g : Graph} (hg : g.Canonical)
  {c : Column}
include hs hg

/-- **The type of a column reads back.** -/
theorem typeReads_canonical (h : CanonicalType g c) (keyHere b : Bool) :
    TypeReads b ((typeClause s g c keyHere).text s).toList c.title (postgresTyped c keyHere) := by
  cases h with
  | enumeration e mem type params up =>
    have hname := enumName?_columnType type (hg.enumNamed e mem)
    have hwritten : writtenType c = e.name := by
      unfold writtenType
      rw [hname]
    have hclause : typeClause s g c keyHere = .type (quote s e.name) := by
      have hfound : g.enumByName? e.name = some e := hg.enumByName?_eq mem
      unfold typeClause enumType
      rw [hname, hs]
      dsimp only
      rw [hfound]
    unfold postgresTyped
    rw [hclause, hwritten, params]
    exact typeReads_name s e.name b c.title
  | plain base n mem type params up =>
    have hfixed := fixedType_plain mem type up
    have hclause : typeClause s g c keyHere = .type (renderType c.dataType c.params .postgresql) := by
      unfold typeClause
      rw [hfixed.noEnum, hfixed.noCount, hs]
      rfl
    unfold postgresTyped
    rw [hclause, hfixed.writtenType_eq, type]
    exact typeReads_plain mem n params b c.title
  | double type params up =>
    have hfixed := fixedType_double type up
    have hclause : typeClause s g c keyHere = .type "DOUBLE PRECISION" := by
      unfold typeClause
      rw [hfixed.noEnum, hfixed.noCount, hs, params, hfixed.written]
      rfl
    unfold postgresTyped
    rw [hclause, hfixed.writtenType_eq, params]
    exact typeReads_double b c.title
  | counting mem params up primary =>
    have hclause : typeClause s g c keyHere = .type (renderCountingType c.dataType .postgresql) := by
      unfold typeClause countsUp
      rw [enumName?_counting mem, up, hs]
      rfl
    unfold postgresTyped
    rw [hclause, writtenType_counting mem up, params]
    exact typeReads_counting mem b c.title

/-- **A canonical graph is readable**, if no title begins an item of another kind, and backslashes
escape nothing or are not there. -/
theorem readable_canonical
    (hn : ∀ t ∈ g.tables, ∀ c ∈ t.columns, NamesColumn s c.title) {b : Bool}
    (hb : b = false ∨ (∀ e ∈ g.enums, ∀ v ∈ e.values, '\\' ∉ v.toList) ∧
      ∀ t ∈ g.tables, ∀ c ∈ t.columns, ∀ v ∈ c.defaultValue, '\\' ∉ v.toList) :
    Readable s g postgresTyped b where
  values _ := hb.imp_right And.left
  keys key hkey := hg.hasActions ((hg.mem_keysOf key).1 hkey)
  tables t ht := {
    names := hn t ht
    columns c hc := {
      type := typeReads_canonical hs hg (hg.columns t ht c hc).type _ b
      default v hv := by
        rw [hs]
        exact ⟨_, restores_of_safe ((hg.columns t ht c hc).default v hv)
          (.of_or rfl (hb.imp_right fun h => h.2 t ht c hc v hv))⟩
      key key hkey := by
        rw [Option.mem_def, hg.keyOfColumn?_inside s ht hc] at hkey
        split at hkey
        · obtain ⟨k, hk, rfl⟩ := Option.map_eq_some_iff.1 hkey
          exact hg.hasActions ⟨t, ht, c, hc, k, hk, rfl⟩
        · cases hkey } }

end

/-! ## A canonical graph -/

/-- An enumeration, a key that counts up, and a column that refers to it and has an index. -/
def ordersGraph : Graph where
  tables := [
    { id := "t1", name := "users", columns := [
        { title := "id", dataType := "integer", constraints := [.primary],
          autoIncrement := true }] },
    { id := "t2", name := "Order", columns := [
        { title := "user", dataType := "integer", constraints := [.notNull, .index],
          foreignKey := some ⟨"users", "id", some "CASCADE", none, true⟩ },
        { title := "state", dataType := "enum_state", defaultValue := some "open" }] }]
  enums := [{ id := "e1", name := "state", values := ["open", "it's paid"] }]
  edges := [
    { id := "k1", source := "t2", sourceHandle := "source-user", target := "t1",
      targetHandle := "target-id", cardinality := .manyToOne }]

theorem canonical_ordersGraph : ordersGraph.Canonical := by
  have hcolumns : ∀ t ∈ ordersGraph.tables, ∀ c ∈ t.columns, CanonicalColumn ordersGraph c := by
    intro t ht c hc
    rcases List.mem_cons.1 ht with rfl | ht
    · obtain rfl := List.mem_singleton.1 hc
      exact ⟨by decide, .counting (by decide) rfl rfl rfl, by decide, by decide, by decide,
        nofun⟩
    · obtain rfl := List.mem_singleton.1 ht
      rcases List.mem_cons.1 hc with rfl | hc
      · exact ⟨by decide, .plain "integer" 0 (by decide) (by decide) nofun rfl, by decide +kernel,
          by decide, by decide, nofun⟩
      · obtain rfl := List.mem_singleton.1 hc
        refine ⟨by decide, .enumeration _ (.head _) rfl rfl rfl, by decide, by decide,
          by decide, fun v hv => .inl ?_⟩
        obtain rfl := Option.some.inj hv
        decide
  have hkeys : ∀ t ∈ ordersGraph.tables, ∀ c ∈ t.columns, ∀ k ∈ c.foreignKey, CanonicalKey ordersGraph t c k := by
    intro t ht c hc k hk
    rcases List.mem_cons.1 ht with rfl | ht
    · obtain rfl := List.mem_singleton.1 hc
      cases hk
    · obtain rfl := List.mem_singleton.1 ht
      rcases List.mem_cons.1 hc with rfl | hc
      · obtain rfl := Option.some.inj hk
        refine ⟨fun text h => ⟨.cascade, ?_⟩, nofun, fun _ => ⟨_, .head _, rfl, ?_⟩, nofun⟩
        · exact (Option.some.inj h).symm
        · decide
      · obtain rfl := List.mem_singleton.1 hc
        cases hk
  have hedges : ∀ e ∈ ordersGraph.foreignKeys, CanonicalEdge ordersGraph e := by
    intro e he
    obtain rfl := List.mem_singleton.1 (List.mem_filter.1 he).1
    exact ⟨_, .tail _ (.head _), _, .head _, _, .head _, _, .head _, _, rfl, by decide, rfl,
      by decide, rfl, rfl, rfl, rfl⟩
  exact ⟨by decide, by decide, by decide, by decide, by decide,
    by decide, by decide, by decide, hcolumns, hkeys, hedges⟩

end DdlGraph
