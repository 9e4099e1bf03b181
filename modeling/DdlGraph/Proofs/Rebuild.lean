import DdlGraph.Proofs.Canonical

/-!
# Phases over the statements of a graph

The statements of a canonical graph, with that graph as the one before, go through the phases one by
one: enumerations and tables come back at their places, each column gets its type, and the columns
wait for the targets that they refer to.

* `chooseType_canonical`: the type of a column is chosen as it was;
* `foldl_addTable_canonical`: all tables;
* `rebuilt_ofStatements`: the draft after all phases.
-/

namespace DdlGraph

open Sql Ddl

theorem Graph.Canonical.distinct {g : Graph} (hg : g.Canonical) : g.Distinct where
  ids := hg.tableIds
  names := hg.tableNames
  titles t ht := by
    refine List.Nodup.of_map Text.lower ?_
    rw [List.map_map]
    exact hg.titles t ht

namespace Recovery.Draft

/-! ## Statements of each phase -/

/-- What the phase of enumerations takes. -/
def declared? : Statement → Option (String × List String)
  | .createType name values => some (name, values)
  | _ => none

/-- What the phase of tables takes. -/
def defined? : Statement → Option TableDef
  | .createTable definition => some definition
  | _ => none

/-- What the phase of indexes takes. -/
def indexed? : Statement → Option (String × List String × Bool)
  | .createIndex table columns unique => some (table, columns, unique)
  | _ => none

/-- What the phase of foreign keys takes. -/
def altered? : Statement → Option (String × KeyDef)
  | .alterForeignKey table key => some (table, key)
  | _ => none

/-- A phase goes over the statements that it takes. -/
theorem foldl_of_phase {α : Type} (phase : Draft → Statement → Draft)
    (view : Statement → Option α) (step : Draft → α → Draft)
    (h : ∀ d s, phase d s = (view s).elim d (step d)) (statements : List Statement) (d : Draft) :
    statements.foldl phase d = (statements.filterMap view).foldl step d := by
  rw [List.foldl_filterMap]
  congr 1
  funext d s
  rw [h]
  cases view s <;> rfl

theorem ofStatements_eq (previous : Option Graph) (statements : List Statement) :
    ofStatements previous statements =
      (statements.filterMap altered?).foldl (fun d x => keyPhase d (.alterForeignKey x.1 x.2))
        ((statements.filterMap indexed?).foldl (fun d x => d.addIndex x.1 x.2.1 x.2.2)
          ((statements.filterMap defined?).foldl (addTable (Prior.ofGraph? previous))
            ((statements.filterMap declared?).foldl
              (fun d x => declareEnum (Prior.ofGraph? previous) d x.1 x.2)
              { pool := IdPool.ofGraph? previous }))) := by
  have henums := foldl_of_phase (enumPhase (Prior.ofGraph? previous)) declared?
    (fun d x => declareEnum (Prior.ofGraph? previous) d x.1 x.2) fun d s => by cases s <;> rfl
  have htables := foldl_of_phase (tablePhase (Prior.ofGraph? previous)) defined?
    (addTable (Prior.ofGraph? previous)) fun d s => by cases s <;> rfl
  have hindexes := foldl_of_phase indexPhase indexed?
    (fun d x => d.addIndex x.1 x.2.1 x.2.2) fun d s => by cases s <;> rfl
  have hkeys := foldl_of_phase keyPhase altered?
    (fun d x => keyPhase d (.alterForeignKey x.1 x.2)) fun d s => by cases s <;> rfl
  unfold ofStatements
  dsimp only
  rw [henums, htables, hindexes, hkeys]

/-- What a phase takes has no lines, but for tables. -/
theorem filterMap_reline {α : Type} (view : Statement → Option α) {f : Nat → Nat} {u : α → α}
    (h : ∀ s, view (s.reline f) = (view s).map u) (statements : List Statement) :
    (statements.map (Statement.reline f)).filterMap view = (statements.filterMap view).map u := by
  rw [List.filterMap_map, List.map_filterMap]
  congr 1
  funext s
  exact h s

/-! ## Statements of a graph, phase by phase -/

section
variable (s : Settings) (g : Graph) (typed : Column → Bool → ColumnDef)

theorem declared_statementsOf : (statementsOf s g typed).filterMap declared? =
    if s.dialect = .postgresql then g.enums.map fun e => (e.name, e.values) else [] := by
  unfold statementsOf enumStatements keyStatements
  simp only [List.filterMap_append, List.filterMap_flatMap, tableStatements, List.filterMap_cons,
    List.filterMap_map]
  split <;> split <;> simp [declared?, Function.comp_def]

theorem defined_statementsOf : (statementsOf s g typed).filterMap defined? =
    g.tables.map fun t => tableDef s g typed (insideKeys s (keysOf g) t) t := by
  unfold statementsOf enumStatements keyStatements
  simp only [List.filterMap_append, List.filterMap_flatMap, tableStatements, List.filterMap_cons,
    List.filterMap_map]
  have htables : (g.tables.flatMap fun t => [tableDef s g typed (insideKeys s (keysOf g) t) t]) =
      g.tables.map fun t => tableDef s g typed (insideKeys s (keysOf g) t) t :=
    List.map_eq_flatMap.symm
  split <;> split <;> simp [defined?, Function.comp_def, htables]

theorem indexed_statementsOf : (statementsOf s g typed).filterMap indexed? =
    g.tables.flatMap fun t => (indexedColumns t).map fun c => (t.name, [c.title], false) := by
  unfold statementsOf enumStatements keyStatements
  simp only [List.filterMap_append, List.filterMap_flatMap, tableStatements, List.filterMap_cons,
    List.filterMap_map]
  split <;> split <;> simp [indexed?, Function.comp_def]

theorem altered_statementsOf : (statementsOf s g typed).filterMap altered? =
    if inlinesKeys s then [] else (keysOf g).map fun k => (k.sourceTable, k.keyDef) := by
  unfold statementsOf enumStatements keyStatements
  simp only [List.filterMap_append, List.filterMap_flatMap, tableStatements, List.filterMap_cons,
    List.filterMap_map]
  split <;> split <;> simp [altered?, Function.comp_def]

end

/-! ## Types -/

/-- **A written type** that is no enumeration: it gives the type of the column, with its mark, and
does not look like that of an enumeration. -/
structure NamesType (c : Column) : Prop where
  noEnum : c.enumName? = none
  normal : BaseType.normalize (writtenType c) = ⟨c.dataType, c.autoIncrement⟩
  noMark : afterMark? enumTypeMark.toList (Text.lower (writtenType c)).toList = none

theorem afterMark?_of_head {text : List Char} (h : text.head? ≠ some 'e') :
    afterMark? enumTypeMark.toList text = none := by
  unfold afterMark?
  cases text with
  | nil => rfl
  | cons x xs =>
    have hx : ('e' == x) = false := beq_false_of_ne fun he => h (congrArg some he.symm)
    change (if ('e' == x && "num_".toList.isPrefixOf xs) = true then _ else _) = _
    rw [hx]
    rfl

theorem namesType_plain {c : Column} {base : String} {n : Nat} (h : base ∈ plainTypes)
    (ht : c.dataType = arrayOf base n) (hu : c.autoIncrement = false) : NamesType c := by
  have hfixed := fixedType_plain h ht hu
  have hp := plainName_of_mem h
  refine ⟨hfixed.noEnum, ?_, ?_⟩
  · rw [hfixed.writtenType_eq, normalize_plain h, ht, hu]
  · rw [hfixed.writtenType_eq, lower_arrayOf hp.upper.ascii, hp.foldedUpper]
    exact afterMark?_of_head (head?_arrayOf_plain h n)

theorem namesType_double {c : Column} (ht : c.dataType = "double") (hu : c.autoIncrement = false) :
    NamesType c := by
  have hfixed := fixedType_double ht hu
  refine ⟨hfixed.noEnum, ?_, ?_⟩
  · rw [hfixed.writtenType_eq, ht, hu]
    decide +kernel
  · rw [hfixed.writtenType_eq]
    decide

theorem namesType_counting {c : Column} (h : c.dataType ∈ countingTypes)
    (hu : c.autoIncrement = true) : NamesType c := by
  have hnormal : ∀ base ∈ countingTypes,
      BaseType.normalize (renderCountingType base .postgresql) = ⟨base, true⟩ := by
    decide +kernel
  have hmark : ∀ base ∈ countingTypes, afterMark? enumTypeMark.toList
      (Text.lower (renderCountingType base .postgresql)).toList = none := by
    decide
  refine ⟨enumName?_counting h, ?_, ?_⟩
  · rw [writtenType_counting h hu, hnormal _ h, hu]
  · rw [writtenType_counting h hu, hmark _ h]

/-- The type of a column of a canonical graph is that of an enumeration, or a type that is no
enumeration. -/
theorem CanonicalType.cases_enum {g : Graph} {c : Column} (h : CanonicalType g c) :
    (∃ e ∈ g.enums, c.dataType = e.columnType ∧ c.params = [] ∧ c.autoIncrement = false) ∨
      NamesType c := by
  cases h with
  | enumeration e mem type params up => exact .inl ⟨e, mem, type, params, up⟩
  | plain base n mem type params up => exact .inr (namesType_plain mem type up)
  | double type params up => exact .inr (namesType_double type up)
  | counting mem params up primary => exact .inr (namesType_counting mem up)

/-- **The type of a column is chosen as it was**, if the draft has the enumerations of the graph. -/
theorem chooseType_canonical {g : Graph} (hg : g.Canonical) {c : Column} (hc : CanonicalColumn g c)
    (prior : Prior) {d : Draft} (hd : d.enums = g.enums) (table : String) {x : ColumnDef}
    (hname : x.typeName = writtenType c) (hparams : x.params = c.params)
    (hvalues : x.inlineValues = none) :
    chooseType prior d table x = (⟨c.dataType, c.params, c.autoIncrement⟩, d) := by
  unfold chooseType
  rw [hvalues, hname, hparams]
  dsimp only
  unfold knownEnum?
  rcases CanonicalType.cases_enum hc.type with ⟨e, he, htype, hp, hu⟩ | h
  · have hwritten : writtenType c = e.name := by
      unfold writtenType
      rw [enumName?_columnType htype (hg.enumNamed e he)]
    have hempty : e.name.isEmpty = false := by
      simpa using hg.enumNamed e he
    rw [hwritten, hempty, hd, hg.enumByName?_eq he, htype, hp, hu]
    rfl
  · have hnone : enumByName? d.enums (writtenType c) = none := by
      rw [hd]
      exact List.find?_eq_none.2 fun e he => by
        rw [hc.typeName h.noEnum e he]
        decide
    rw [hnone, h.noMark]
    simp only [Option.bind_none, Option.or_none, ite_self, h.normal]

/-! ## Enumerations -/

theorem not_mem_before {α β : Type} {f : α → β} {done rest : List α} {a : α}
    (h : ((done ++ a :: rest).map f).Nodup) : f a ∉ done.map f := by
  rw [List.map_append, List.map_cons] at h
  intro hm
  exact (List.nodup_append.1 h).2.2 _ hm _ (.head _) rfl

section
variable {g : Graph} (hg : g.Canonical)
include hg

/-- **Enumerations come back** as they were, one after the other. -/
theorem foldl_declareEnum_canonical {done rest : List Enumeration} (h : done ++ rest = g.enums)
    {d : Draft} (hd : d.enums = done) :
    (rest.map fun e => (e.name, e.values)).foldl
      (fun d x => declareEnum (Prior.ofGraph g) d x.1 x.2) d = { d with enums := g.enums } := by
  induction rest generalizing done d with
  | nil =>
    rw [List.append_nil] at h
    rw [← h, ← hd]
    rfl
  | cons e rest ih =>
    have he : e ∈ g.enums := h ▸ List.mem_append_right _ (.head _)
    have hnames := hg.enumNames
    rw [← h] at hnames
    have hnone : enumByName? d.enums e.name = none := by
      rw [hd]
      refine List.find?_eq_none.2 fun e' he' hsame => not_mem_before hnames ?_
      rw [← Text.lower_of_sameAscii hsame]
      exact List.mem_map_of_mem he'
    have hvalues := foldl_pushValue_append (e := { e with values := [] }) (hg.values e he)
    have hstep : declareEnum (Prior.ofGraph g) d e.name e.values =
        { d with enums := d.enums ++ [e] } := by
      unfold declareEnum addEnum placeEnum
      rw [hnone, hg.prior_enum? he]
      dsimp only
      rw [hvalues]
      rfl
    rw [List.append_cons] at h
    rw [List.map_cons, List.foldl_cons, hstep, ih h (by rw [hd])]

end

/-! ## Columns -/

/-- A title that no column has, case left aside, is free. -/
theorem freeTitle_of_not_mem {t : Table} {title : String}
    (h : Text.lower title ∉ t.columns.map fun c => Text.lower c.title) :
    t.freeTitle title = title := by
  have htakes : ¬ t.takes title = true := by
    intro hm
    unfold Table.takes Table.foldedTitles at hm
    obtain ⟨c, hc, he⟩ := List.mem_map.1 (List.contains_iff_mem.1 hm)
    refine h (List.mem_map.2 ⟨c, hc, ?_⟩)
    exact Text.lower_of_sameAscii (sameAscii_iff.2 he)
  rw [Table.freeTitle_eq]
  unfold freeName
  rw [if_neg htakes]

/-- **A column of a new title** stands behind the others with the type that is chosen for it. -/
theorem addColumn_fresh (prior : Prior) {t : Table} (d : Draft) {c : ColumnDef}
    (h : Text.lower c.name ∉ t.columns.map fun c => Text.lower c.title) :
    (addColumn prior (t, d) c).1 =
        { t with columns := t.columns ++ [columnOf (d.chooseType prior t.name c).1 c] } ∧
      (addColumn prior (t, d) c).2.enums = (d.chooseType prior t.name c).2.enums ∧
        (addColumn prior (t, d) c).2.pending = d.pending ++
          (c.reference.map fun ref => ⟨t.id, c.name, ref, ref.columns.headD "id"⟩).toList := by
  let column := columnOf (d.chooseType prior t.name c).1 c
  have hfree := freeTitle_of_not_mem h
  have hadd : t.addColumn column = { t with columns := t.columns ++ [column] } := by
    have htitle : { column with title := c.name } = column := rfl
    have hname : column.title = c.name := rfl
    unfold Table.addColumn
    rw [hname, hfree, htitle]
  have hpending := (chooseType_step prior d t.name c).pending
  rw [addColumn_eq]
  refine ⟨hadd, rfl, ?_⟩
  dsimp only
  rw [hfree, hpending]

/-- The foreign key that a column states itself. -/
def ownKey (s : Settings) (c : Column) : Option ForeignKey :=
  if inlinesKeys s then c.foreignKey else none

/-- What waits for the target of a foreign key. -/
def pendingOf (t : Table) (c : Column) (k : ForeignKey) : PendingKey :=
  ⟨t.id, c.title, (KeySpec.ofForeignKey t c k).reference, k.column⟩

/-- A foreign key of a column of the graph waits. -/
def IsPending (g : Graph) (p : PendingKey) : Prop :=
  ∃ t ∈ g.tables, ∃ c ∈ t.columns, ∃ k, c.foreignKey = some k ∧ p = pendingOf t c k

/-- The use of an enumeration by a column. -/
def useOf? (g : Graph) (t : Table) (c : Column) : Option EnumUse :=
  (c.enumName?.bind (enumByName? g.enums)).map fun e => ⟨e.id, e.name, t.id, c.title⟩

/-- The draft with more tables, uses of enumerations and foreign keys that wait. -/
def adding (d : Draft) (tables : List Table) (uses : List EnumUse) (pending : List PendingKey) :
    Draft :=
  { d with
    tables := d.tables ++ tables
    tableIds := d.tableIds ++ tables.map fun t => (Text.lower t.name, t.id)
    enumUses := d.enumUses ++ uses
    pending := d.pending ++ pending }

theorem adding_nil_tables (d : Draft) (uses : List EnumUse) (pending : List PendingKey) :
    d.adding [] uses pending =
      { d with enumUses := d.enumUses ++ uses, pending := d.pending ++ pending } := by
  unfold adding
  simp only [List.map_nil, List.append_nil]

theorem adding_nil (d : Draft) : d.adding [] [] [] = d := by
  unfold adding
  simp only [List.map_nil, List.append_nil]

theorem adding_adding (d : Draft) (ts ts' : List Table) (us us' : List EnumUse)
    (ps ps' : List PendingKey) :
    (d.adding ts us ps).adding ts' us' ps' = d.adding (ts ++ ts') (us ++ us') (ps ++ ps') := by
  unfold adding
  simp only [List.map_append, List.append_assoc]

/-- **Reading of columns**: what their types are read as, and the types that are then chosen for
them. -/
structure Reading where
  typed : Column → Bool → ColumnDef
  choice : Table → Column → TypeChoice
  name : ∀ c keyHere, (typed c keyHere).name = c.title

/-- In PostgreSQL, each column comes back with the type that it had. -/
def Reading.postgres : Reading where
  typed := postgresTyped
  choice _ c := ⟨c.dataType, c.params, c.autoIncrement⟩
  name _ _ := rfl

section
variable (s : Settings) (g : Graph)

/-- What a column of the graph is read as. -/
def readColumn (typed : Column → Bool → ColumnDef) (t : Table) (c : Column) : ColumnDef :=
  columnDef s g typed (promotesKey t (insideKeys s (keysOf g) t))
    (keyOfColumn? (insideKeys s (keysOf g) t) c) c

/-- What a table of the graph is read as. -/
def readTable (typed : Column → Bool → ColumnDef) (t : Table) : TableDef :=
  tableDef s g typed (insideKeys s (keysOf g) t) t

variable (r : Reading) (t : Table)

/-- What a column of the graph is built as. -/
def builtColumn (c : Column) : Column :=
  columnOf (r.choice t c) (readColumn s g r.typed t c)

/-- A column of a table that is built, with the primary key that the table states. -/
def keyedColumn (c : Column) : Column :=
  if c.title ∈ (readTable s g r.typed t).primaryKey then
    (builtColumn s g r t c).addConstraint .primary
  else builtColumn s g r t c

theorem keepsTitles_builtColumn : KeepsTitles (builtColumn s g r t) :=
  fun c => r.name c _

end

theorem reference_readColumn {s : Settings} {g : Graph} (hg : g.Canonical) {t : Table}
    (ht : t ∈ g.tables) {c : Column} (hc : c ∈ t.columns) {typed : Column → Bool → ColumnDef}
    (h : ∀ keyHere, TypeSays (typeClause s g c keyHere) c (typed c keyHere)) :
    (readColumn s g typed t c).reference =
      (clauseKey s ((ownKey s c).map (.ofForeignKey t c))).map KeySpec.reference := by
  have hown : keyOfColumn? (insideKeys s (keysOf g) t) c =
      (ownKey s c).map (.ofForeignKey t c) := by
    rw [hg.keyOfColumn?_inside s ht hc]
    unfold ownKey
    split <;> rfl
  rw [← hown]
  exact reference_columnDef _ (h _)

section
variable {s : Settings} (hs : s.dialect = .postgresql) {g : Graph} (hg : g.Canonical)
  {t : Table} (ht : t ∈ g.tables)
include hs hg ht

/-- **One column** comes back behind those before it. -/
theorem addColumn_canonical {done : List Column} {c : Column} (hc : c ∈ t.columns)
    (hnew : Text.lower c.title ∉ done.map fun c => Text.lower c.title) {d : Draft}
    (hd : d.enums = g.enums) (prior : Prior) :
    addColumn prior ({ t with columns := done.map (builtColumn s g .postgres t) }, d)
        (readColumn s g postgresTyped t c) =
      ({ t with columns := (done ++ [c]).map (builtColumn s g .postgres t) },
        d.adding [] (useOf? g t c).toList ((ownKey s c).map (pendingOf t c)).toList) := by
  have htype := chooseType_canonical hg (hg.columns t ht c hc) prior hd t.name
    (x := readColumn s g postgresTyped t c) rfl rfl rfl
  have hcolumn : columnOf ⟨c.dataType, c.params, c.autoIncrement⟩
      (readColumn s g postgresTyped t c) = builtColumn s g .postgres t c := rfl
  have hname : (readColumn s g postgresTyped t c).name = c.title := rfl
  have hfree : Table.freeTitle { t with columns := done.map (builtColumn s g .postgres t) }
      c.title = c.title := by
    apply freeTitle_of_not_mem
    rw [List.map_map]
    exact hnew
  have hadd : Table.addColumn { t with columns := done.map (builtColumn s g .postgres t) }
      (builtColumn s g .postgres t c) =
        { t with columns := (done ++ [c]).map (builtColumn s g .postgres t) } := by
    have htitle : { builtColumn s g .postgres t c with title := c.title } =
        builtColumn s g .postgres t c := rfl
    unfold Table.addColumn
    rw [keepsTitles_builtColumn s g .postgres t c, hfree, htitle, List.map_append]
    rfl
  have htypeName : (builtColumn s g .postgres t c).enumName? = c.enumName? := enumName?_congr rfl
  have huse : (c.enumName?.bind (enumByName? d.enums)).map
      (fun e => (⟨e.id, e.name, t.id, c.title⟩ : EnumUse)) = useOf? g t c := by
    rw [hd]
    rfl
  have hkey : (readColumn s g postgresTyped t c).reference.map
      (fun ref => (⟨t.id, c.title, ref, ref.columns.headD "id"⟩ : PendingKey)) =
        (ownKey s c).map (pendingOf t c) := by
    have hclause : ∀ key, clauseKey s key = key := by
      unfold clauseKey
      rw [hs]
      exact fun _ => rfl
    rw [reference_readColumn hg ht hc (typeSays_postgres hs g c), hclause, Option.map_map,
      Option.map_map]
    rfl
  rw [addColumn_eq]
  dsimp only
  rw [htype]
  dsimp only
  rw [hcolumn, hname, hfree, hadd, htypeName, huse, hkey, adding_nil_tables]

/-- **The columns of a table** come back one after the other. -/
theorem foldl_addColumn_canonical {done rest : List Column} (h : done ++ rest = t.columns)
    {d : Draft} (hd : d.enums = g.enums) (prior : Prior) :
    (rest.map (readColumn s g postgresTyped t)).foldl (addColumn prior)
      ({ t with columns := done.map (builtColumn s g .postgres t) }, d) =
        (t.mapColumns (builtColumn s g .postgres t), d.adding [] (rest.filterMap (useOf? g t))
          (rest.filterMap fun c => (ownKey s c).map (pendingOf t c))) := by
  induction rest generalizing done d with
  | nil =>
    rw [List.append_nil] at h
    rw [h]
    simp [adding_nil, Table.mapColumns]
  | cons c rest ih =>
    have hc : c ∈ t.columns := h ▸ List.mem_append_right _ (.head _)
    have hnew := not_mem_before (h ▸ hg.titles t ht)
    have hd' : (d.adding [] (useOf? g t c).toList
        ((ownKey s c).map (pendingOf t c)).toList).enums = g.enums := hd
    rw [List.append_cons] at h
    rw [List.map_cons, List.foldl_cons, addColumn_canonical hs hg ht hc hnew hd prior, ih h hd',
      adding_adding, List.append_nil]
    cases hu : useOf? g t c <;> cases hk : ownKey s c <;> simp [hu, hk]

end

/-! ## Tables -/

theorem title_addConstraint (c : Column) (k : Constraint) :
    (c.addConstraint k).title = c.title := by
  unfold Column.addConstraint
  split <;> rfl

theorem addConstraint_addConstraint (c : Column) (k : Constraint) :
    (c.addConstraint k).addConstraint k = c.addConstraint k :=
  if_pos (Column.mem_addConstraint.2 (.inl rfl))

theorem constrain_eq {t : Table} {title : String} {c : Column} (h : t.findColumn? title = some c)
    (k : Constraint) : constrain k t title = t.updateColumn c.title (·.addConstraint k) := by
  unfold constrain
  rw [h]

/-- Each of the columns gets the constraint. -/
theorem foldl_constrain_mapColumns {t : Table} (hn : (t.columns.map (·.title)).Nodup)
    (k : Constraint) {titles : List String} (htitles : ∀ x ∈ titles, ∃ c ∈ t.columns, c.title = x)
    {f : Column → Column} (hf : KeepsTitles f) :
    titles.foldl (constrain k) (t.mapColumns f) =
      t.mapColumns fun c => if c.title ∈ titles then (f c).addConstraint k else f c := by
  induction titles generalizing f with
  | nil => simp
  | cons x titles ih =>
    obtain ⟨c, hc, rfl⟩ := htitles x (.head _)
    let f' := fun c' : Column => if c'.title == c.title then (f c').addConstraint k else f c'
    have hf' : KeepsTitles f' := by
      intro c'
      dsimp only [f']
      split
      · rw [title_addConstraint, hf]
      · exact hf c'
    have hfound : t.column? c.title = some c :=
      find?_of_nodup hn hc (beq_self_eq_true _) fun _ _ h => eq_of_beq h
    have hfind : (t.mapColumns f).findColumn? c.title = some (f c) := by
      unfold Table.findColumn?
      rw [Table.column?_mapColumns hf, hfound]
      rfl
    have hstep : constrain k (t.mapColumns f) c.title = t.mapColumns f' := by
      rw [constrain_eq hfind, hf, Table.updateColumn_mapColumns hn hf]
    rw [List.foldl_cons, hstep, ih (fun x hx => htitles x (.tail _ hx)) hf']
    congr 1
    funext c'
    dsimp only [f']
    by_cases he : c'.title = c.title
    · simp [he, addConstraint_addConstraint]
    · simp [he]

theorem keepsTitles_keyedColumn (s : Settings) (g : Graph) (r : Reading) (t : Table) :
    KeepsTitles (keyedColumn s g r t) := by
  intro c
  have hbuilt := keepsTitles_builtColumn s g r t c
  unfold keyedColumn
  split
  · exact (title_addConstraint _ _).trans hbuilt
  · exact hbuilt

/-- A table of that line is added as one of another line, if its name is new. -/
theorem addTable_reline (prior : Prior) {d : Draft} {definition : TableDef}
    (h : d.tableId? definition.name = none) (f : Nat → Nat) :
    addTable prior d (definition.reline f) = addTable prior d definition := by
  rw [addTable_eq prior h]
  exact addTable_eq prior h

theorem applyConstraints_canonical {s : Settings} {g : Graph} (hg : g.Canonical) (r : Reading)
    {t : Table} (ht : t ∈ g.tables) :
    applyConstraints (readTable s g r.typed t) (t.mapColumns (builtColumn s g r t)) =
      t.mapColumns (keyedColumn s g r t) := by
  refine foldl_constrain_mapColumns (hg.distinct.titles t ht) .primary ?_
    (keepsTitles_builtColumn s g r t)
  intro x hx
  unfold readTable tableDef at hx
  dsimp only at hx
  split at hx
  · obtain ⟨c, hc, rfl⟩ := List.mem_map.1 hx
    exact ⟨c, (List.mem_filter.1 hc).1, rfl⟩
  · cases hx

section
variable {s : Settings} (hs : s.dialect = .postgresql) {g : Graph} (hg : g.Canonical)
include hs hg

/-- **One table** comes back behind those before it. -/
theorem addTable_canonical {t : Table} (ht : t ∈ g.tables) {d : Draft} (hd : d.enums = g.enums)
    (hnew : d.tableId? t.name = none) :
    addTable (Prior.ofGraph g) d (readTable s g postgresTyped t) =
      d.adding [t.mapColumns (keyedColumn s g .postgres t)] (t.columns.filterMap (useOf? g t))
        (t.columns.filterMap fun c => (ownKey s c).map (pendingOf t c)) := by
  have hplace : placeTable (Prior.ofGraph g) d.pool t.name d.tables.length =
      (⟨t.id, t.position, t.color⟩, d.pool) := by
    unfold placeTable
    rw [hg.prior_table? ht]
  have hcolumns := foldl_addColumn_canonical hs hg ht (List.nil_append t.columns) hd
    (Prior.ofGraph g)
  have hconstraints : applyConstraints (readTable s g postgresTyped t)
      (t.mapColumns (builtColumn s g .postgres t)) = t.mapColumns (keyedColumn s g .postgres t) :=
    applyConstraints_canonical hg .postgres ht
  have hname : (readTable s g postgresTyped t).name = t.name := rfl
  have hread : (readTable s g postgresTyped t).columns = t.columns.map (readColumn s g postgresTyped t) := rfl
  have hkeys : (readTable s g postgresTyped t).foreignKeys = [] := by
    refine if_neg ?_
    rw [hs]
    decide
  generalize readTable s g postgresTyped t = definition at *
  rw [← hname] at hnew
  rw [addTable_eq (Prior.ofGraph g) hnew]
  unfold columnsOf appendTable
  rw [hname, hplace, hread, hkeys]
  dsimp only
  rw [List.map_nil] at hcolumns
  rw [hcolumns, adding_nil_tables]
  dsimp only
  rw [hconstraints]
  rfl

/-- The columns of tables that use an enumeration. -/
def usesOf (g : Graph) (tables : List Table) : List EnumUse :=
  tables.flatMap fun t => t.columns.filterMap (useOf? g t)

/-- The keys that columns of tables state themselves. -/
def ownKeysOf (s : Settings) (tables : List Table) : List PendingKey :=
  tables.flatMap fun t => t.columns.filterMap fun c => (ownKey s c).map (pendingOf t c)

omit hs hg in
theorem mem_ownKeysOf (p : PendingKey) :
    p ∈ ownKeysOf s g.tables ↔ inlinesKeys s = true ∧ IsPending g p := by
  unfold ownKeysOf IsPending ownKey
  simp only [List.mem_flatMap, List.mem_filterMap, Option.map_eq_some_iff, @eq_comm _ _ p]
  split
  · rename_i hi
    exact (and_iff_right hi).symm
  · rename_i hi
    simp only [hi, reduceCtorEq, false_and, exists_false, and_false, Bool.false_eq_true]

/-- **All tables** come back, one after the other. -/
theorem foldl_addTable_canonical {done rest : List Table} (h : done ++ rest = g.tables)
    {definitions : List TableDef}
    (hdefs : definitions.map (TableDef.reline fun _ => 0) = rest.map (readTable s g postgresTyped)) {d : Draft}
    (hd : d.enums = g.enums) (hids : d.tableIds = done.map fun t => (Text.lower t.name, t.id)) :
    definitions.foldl (addTable (Prior.ofGraph g)) d =
      d.adding (rest.map fun t => t.mapColumns (keyedColumn s g .postgres t)) (usesOf g rest)
        (ownKeysOf s rest) := by
  induction rest generalizing done definitions d with
  | nil =>
    obtain rfl := List.map_eq_nil_iff.1 hdefs
    exact (adding_nil d).symm
  | cons t rest ih =>
    obtain ⟨definition, definitions, rfl, hdef, hdefs⟩ := List.map_eq_cons_iff.1 hdefs
    have ht : t ∈ g.tables := h ▸ List.mem_append_right _ (.head _)
    have hfresh := not_mem_before (h ▸ hg.tableNames)
    have hnew : d.tableId? t.name = none := by
      unfold tableId?
      rw [hids]
      refine List.lookup_eq_none_iff.2 fun x hx => bne_iff_ne.2 fun he => hfresh ?_
      obtain ⟨t', ht', rfl⟩ := List.mem_map.1 hx
      exact List.mem_map.2 ⟨t', ht', he.symm⟩
    have hname : definition.name = t.name := congrArg TableDef.name hdef
    have hstep := addTable_canonical hs hg ht hd hnew
    rw [← hdef, addTable_reline _ (hname ▸ hnew)] at hstep
    rw [List.append_cons] at h
    rw [List.foldl_cons, hstep]
    refine (ih h hdefs ?_ ?_).trans ?_
    · exact hd
    · change d.tableIds ++ [(Text.lower t.name, t.id)] = _
      rw [hids, List.map_append]
      rfl
    · rw [adding_adding]
      rfl

/-! ## Indexes and foreign keys -/

omit hs in
/-- **Indexes** go on the columns that they name. -/
theorem foldl_addIndex_rebuilt {sites : List (Table × Column)}
    (hsites : ∀ x ∈ sites, x.1 ∈ g.tables ∧ x.2 ∈ x.1.columns) {F : Table → Column → Column}
    {d : Draft} (h : Rebuilt g F d) :
    ∃ tables, (sites.map fun x => (x.1.name, [x.2.title], false)).foldl
        (fun d x => d.addIndex x.1 x.2.1 x.2.2) d = { d with tables } ∧
      Rebuilt g (touched (sites.map fun x => (x.1.id, x.2.title))
        (fun _ c => c.addConstraint .index) F) { d with tables } := by
  induction sites generalizing F d with
  | nil =>
    refine ⟨d.tables, rfl, ?_⟩
    rw [List.map_nil, touched_nil]
    exact h
  | cons x sites ih =>
    obtain ⟨t, c⟩ := x
    obtain ⟨ht, hc⟩ : t ∈ g.tables ∧ c ∈ t.columns := hsites (t, c) (.head _)
    have hstep : d.addIndex t.name [c.title] false =
        d.updateTable t.id (constrain .index · c.title) := by
      unfold addIndex
      dsimp only
      rw [h.tableId?_eq hg.distinct ht rfl]
      rfl
    have hfind := h.findColumn?_eq hg.distinct ht hc
    have hconstrain := constrain_eq hfind .index
    rw [h.titles] at hconstrain
    have htouch := h.touch hg.distinct ht hc (u := fun _ c => c.addConstraint .index)
      (f := (constrain .index · c.title)) (fun _ c => title_addConstraint c _) hconstrain
    obtain ⟨tables, he, hrebuilt⟩ := ih (fun x hx => hsites x (.tail _ hx)) htouch
    refine ⟨tables, ?_, ?_⟩
    · rw [List.map_cons, List.foldl_cons, hstep]
      exact he
    · rw [touched_cons fun _ c => addConstraint_addConstraint c _] at hrebuilt
      exact hrebuilt

omit hs hg in
/-- A foreign key of one column waits for its one target. -/
theorem queueKey_column {d : Draft} {id name title target : String} {key : KeyDef} {c : Column}
    (hc : (tableById? d.tables id).bind (·.findColumn? title) = some c)
    (hcolumns : key.columns = [title]) (htarget : key.reference.columns = [target]) :
    queueKey id name d key =
      { d with pending := d.pending ++ [⟨id, c.title, key.reference, target⟩] } := by
  unfold queueKey
  rw [hcolumns, htarget, List.zipIdx_singleton, List.foldl_cons, List.foldl_nil]
  dsimp only
  rw [hc]
  rfl

omit hs in
/-- **A foreign key** that is added to a table waits for its target. -/
theorem alter_rebuilt {t : Table} (ht : t ∈ g.tables) {c : Column} (hc : c ∈ t.columns)
    {F : Table → Column → Column} {d : Draft} (h : Rebuilt g F d) (k : ForeignKey) :
    keyPhase d (.alterForeignKey t.name (KeySpec.ofForeignKey t c k).keyDef) =
      d.adding [] [] [pendingOf t c k] := by
  have hcolumn : (tableById? d.tables t.id).bind (·.findColumn? c.title) = some (F t c) := by
    rw [h.tableById?_eq hg.distinct ht]
    exact h.findColumn?_eq hg.distinct ht hc
  unfold keyPhase
  dsimp only
  rw [h.tableId?_eq hg.distinct ht rfl]
  dsimp only
  rw [queueKey_column hcolumn rfl rfl, h.titles t c, adding_nil_tables, List.append_nil]
  rfl

omit hs in
/-- **Foreign keys** that are added to tables wait, just as those of the columns. -/
theorem foldl_alter_rebuilt {keys : List KeySpec} (hkeys : ∀ key ∈ keys, IsKeyOf g key)
    {F : Table → Column → Column} {d : Draft} (h : Rebuilt g F d) :
    ∃ pending, (keys.map fun k => (k.sourceTable, k.keyDef)).foldl
        (fun d x => keyPhase d (.alterForeignKey x.1 x.2)) d = d.adding [] [] pending ∧
      (∀ p ∈ pending, IsPending g p) ∧
      ∀ t ∈ g.tables, ∀ c ∈ t.columns, ∀ k ∈ c.foreignKey, KeySpec.ofForeignKey t c k ∈ keys →
        pendingOf t c k ∈ pending := by
  induction keys generalizing d with
  | nil =>
    refine ⟨[], (adding_nil d).symm, fun _ hp => absurd hp List.not_mem_nil, ?_⟩
    intro t _ c _ k _ hm
    exact absurd hm List.not_mem_nil
  | cons key keys ih =>
    obtain ⟨t, ht, c, hc, k, hk, rfl⟩ := hkeys key (.head _)
    have hstep := alter_rebuilt hg ht hc h k
    have hmono : Rebuilt g F (d.adding [] [] [pendingOf t c k]) := by
      rw [adding_nil_tables]
      exact h.mono rfl rfl
    obtain ⟨pending, he, hsound, hall⟩ := ih (fun key hkey => hkeys key (.tail _ hkey)) hmono
    refine ⟨pendingOf t c k :: pending, ?_, ?_, ?_⟩
    · have hsource : (KeySpec.ofForeignKey t c k).sourceTable = t.name := rfl
      rw [List.map_cons, List.foldl_cons, hsource, hstep, he, adding_adding]
      rfl
    · intro p hp
      rcases List.mem_cons.1 hp with rfl | hp
      · exact ⟨t, ht, c, hc, k, hk, rfl⟩
      · exact hsound p hp
    · intro t' ht' c' hc' k' hk' hm
      rcases List.mem_cons.1 hm with he | hm
      · have hname : t'.name = t.name := congrArg KeySpec.sourceTable he
        obtain rfl := hg.table_ext ht' ht (congrArg _ hname)
        have htitle : c'.title = c.title := congrArg KeySpec.sourceColumn he
        obtain rfl := hg.column_ext ht hc' hc (congrArg _ htitle)
        obtain rfl := Option.some.inj (hk.symm.trans hk')
        exact .head _
      · exact .tail _ (hall t' ht' c' hc' k' hk' hm)

end

/-! ## All phases -/

/-- The columns that have an index of their own, with their tables. -/
def indexSites (g : Graph) : List (Table × Column) :=
  g.tables.flatMap fun t => (indexedColumns t).map fun c => (t, c)

/-- A column of a table after all phases, before its foreign key is set. -/
def plainColumn (s : Settings) (g : Graph) (r : Reading) : Table → Column → Column :=
  touched ((indexSites g).map fun x => (x.1.id, x.2.title)) (fun _ c => c.addConstraint .index)
    (keyedColumn s g r)

/-- **Draft after all phases**: it has the enumerations and the tables of the graph, the foreign
keys of its columns wait, and nothing was left out. -/
structure Ready (s : Settings) (g : Graph) (d : Draft) : Prop where
  rebuilt : Rebuilt g (plainColumn s g .postgres) d
  enums : d.enums = g.enums
  uses : d.enumUses = usesOf g g.tables
  warnings : d.warnings = []
  pending : ∀ p, p ∈ d.pending ↔ IsPending g p

/-- **Phases after the tables**: indexes go on their columns, and in the end all foreign keys
wait. -/
theorem late_rebuilt {s : Settings} {g : Graph} (hg : g.Canonical)
    {typed : Column → Bool → ColumnDef} {statements : List Statement}
    (h : statements.map (Statement.reline fun _ => 0) = statementsOf s g typed) {r : Reading}
    {d : Draft} (hd : Rebuilt g (keyedColumn s g r) d)
    (hp : ∀ p, p ∈ d.pending ↔ inlinesKeys s = true ∧ IsPending g p) :
    ∃ tables pending, (statements.filterMap altered?).foldl
        (fun d x => keyPhase d (.alterForeignKey x.1 x.2))
        ((statements.filterMap indexed?).foldl (fun d x => d.addIndex x.1 x.2.1 x.2.2) d) =
          { d with tables, pending } ∧
      Rebuilt g (plainColumn s g r) { d with tables, pending } ∧
        ∀ p, p ∈ pending ↔ IsPending g p := by
  have hindexed : statements.filterMap indexed? =
      (indexSites g).map fun x => (x.1.name, [x.2.title], false) := by
    have hlines := filterMap_reline indexed? (f := fun _ => 0) (u := id)
      (fun s => by cases s <;> rfl) statements
    rw [h, indexed_statementsOf, List.map_id] at hlines
    rw [← hlines, indexSites, List.map_flatMap]
    simp only [List.map_map, Function.comp_def]
  have haltered : statements.filterMap altered? =
      if inlinesKeys s then [] else (keysOf g).map fun k => (k.sourceTable, k.keyDef) := by
    have hlines := filterMap_reline altered? (f := fun _ => 0) (u := id)
      (fun s => by cases s <;> rfl) statements
    rw [h, altered_statementsOf, List.map_id] at hlines
    exact hlines.symm
  have hsites : ∀ x ∈ indexSites g, x.1 ∈ g.tables ∧ x.2 ∈ x.1.columns := by
    intro x hx
    obtain ⟨t, ht, hx⟩ := List.mem_flatMap.1 hx
    obtain ⟨c, hc, rfl⟩ := List.mem_map.1 hx
    exact ⟨ht, (List.mem_filter.1 hc).1⟩
  obtain ⟨tables, hindex, hrebuilt⟩ := foldl_addIndex_rebuilt hg hsites hd
  have hkeys : ∀ key ∈ keysOf g, IsKeyOf g key := fun key hkey => (hg.mem_keysOf key).1 hkey
  obtain ⟨pending, halter, hsound, hall⟩ := foldl_alter_rebuilt hg hkeys hrebuilt
  rw [hindexed, hindex, haltered]
  by_cases hi : inlinesKeys s = true
  · rw [if_pos hi]
    exact ⟨tables, d.pending, rfl, hrebuilt, fun p => (hp p).trans (and_iff_right hi)⟩
  · rw [if_neg hi, halter, adding_nil_tables, List.append_nil]
    refine ⟨tables, d.pending ++ pending, rfl, hrebuilt.mono rfl rfl, fun p => ?_⟩
    rw [List.mem_append, hp, or_iff_right fun h => hi h.1]
    refine ⟨hsound p, ?_⟩
    rintro ⟨t, ht, c, hc, k, hk, rfl⟩
    exact hall t ht c hc k hk ((hg.mem_keysOf _).2 ⟨t, ht, c, hc, k, hk, rfl⟩)

section
variable {s : Settings} (hs : s.dialect = .postgresql) {g : Graph} (hg : g.Canonical)
include hs hg

/-- The draft of all tables. -/
theorem defined_rebuilt {statements : List Statement}
    (h : statements.map (Statement.reline fun _ => 0) = statementsOf s g postgresTyped) :
    (statements.filterMap defined?).foldl (addTable (Prior.ofGraph g))
      ((statements.filterMap declared?).foldl (fun d x => declareEnum (Prior.ofGraph g) d x.1 x.2)
        { pool := IdPool.ofGraph g }) =
      adding { pool := IdPool.ofGraph g, enums := g.enums }
        (g.tables.map fun t => t.mapColumns (keyedColumn s g .postgres t)) (usesOf g g.tables)
        (ownKeysOf s g.tables) := by
  have hdeclared : statements.filterMap declared? = g.enums.map fun e => (e.name, e.values) := by
    have hlines := filterMap_reline declared? (f := fun _ => 0) (u := id)
      (fun s => by cases s <;> rfl) statements
    rw [h, declared_statementsOf, if_pos hs, List.map_id] at hlines
    exact hlines.symm
  have hdefined : (statements.filterMap defined?).map (TableDef.reline fun _ => 0) =
      g.tables.map (readTable s g postgresTyped) := by
    have hlines := filterMap_reline defined? (f := fun _ => 0) (u := TableDef.reline fun _ => 0)
      (fun s => by cases s <;> rfl) statements
    rw [h, defined_statementsOf] at hlines
    exact hlines.symm
  have henums := foldl_declareEnum_canonical hg (List.nil_append g.enums)
    (d := { pool := IdPool.ofGraph g }) rfl
  rw [hdeclared, henums]
  exact foldl_addTable_canonical hs hg (List.nil_append g.tables) hdefined rfl rfl

/-- **The draft of the statements of a graph** is ready. -/
theorem ready_ofStatements {statements : List Statement}
    (h : statements.map (Statement.reline fun _ => 0) = statementsOf s g postgresTyped) :
    Ready s g (ofStatements (some g) statements) := by
  let d := adding { pool := IdPool.ofGraph g, enums := g.enums }
    (g.tables.map fun t => t.mapColumns (keyedColumn s g .postgres t)) (usesOf g g.tables)
    (ownKeysOf s g.tables)
  have htables : Rebuilt g (keyedColumn s g .postgres) d := by
    refine ⟨List.nil_append _, ?_, keepsTitles_keyedColumn s g .postgres⟩
    exact (List.nil_append _).trans List.map_map
  obtain ⟨tables, pending, hlate, hrebuilt, hpending⟩ := late_rebuilt hg h htables mem_ownKeysOf
  have hprior : Prior.ofGraph? (some g) = Prior.ofGraph g := rfl
  have hpool : IdPool.ofGraph? (some g) = IdPool.ofGraph g := rfl
  rw [ofStatements_eq, hprior, hpool, defined_rebuilt hs hg h, hlate]
  exact ⟨hrebuilt, rfl, rfl, rfl, hpending⟩

end

end Recovery.Draft

end DdlGraph
