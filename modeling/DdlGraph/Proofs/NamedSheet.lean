import DdlGraph.Proofs.KeptIdentity
import DdlGraph.Proofs.PendingKeys

/-!
# Reading without ids

A *sheet* is what a draft says, with the names of tables and enumerations where the draft has their
ids. The phases make a sheet as they make a draft, if no column lists its values: ids only stand for
names then, since all of them are different. What a draft says is therefore the same after every
graph before.

* `Sheet.ofStatements`: the phases on a sheet;
* `Draft.Says`: a draft says what is on the sheet;
* `Says.declare`, `Says.addTable`, `Says.addIndex`, `Says.alter`: each step of a draft is that of its
  sheet;
* `says_ofStatements`: all phases.
-/

namespace DdlGraph

/-- A table without what makes it the same one on the canvas. -/
def Table.bare (t : Table) : Table :=
  { t with id := "", position := .origin, color := none }

/-- An enumeration without what makes it the same one on the canvas. -/
def Enumeration.bare (e : Enumeration) : Enumeration :=
  { e with id := "", position := .origin }

namespace Recovery

open Sql

/-- A foreign key that waits, by the name of its table. -/
structure NamedKey where
  table : String
  column : String
  reference : Reference
  targetColumn : String
deriving DecidableEq

/-- A column that is typed by an enumeration, by names. -/
structure NamedUse where
  enumName : String
  table : String
  column : String
deriving DecidableEq

/-- **Sheet**: what a draft says, without ids. -/
structure Sheet where
  enums : List Enumeration := []
  tables : List Table := []
  keys : List NamedKey := []
  uses : List NamedUse := []
  warnings : List Warning := []

/-- **No column lists its values.** -/
def Unlisted (statements : List Statement) : Prop :=
  ∀ x ∈ statements.filterMap Draft.defined?, ∀ c ∈ x.columns, c.inlineValues = none

instance (statements : List Statement) : Decidable (Unlisted statements) :=
  inferInstanceAs (Decidable (∀ x ∈ statements.filterMap Draft.defined?, ∀ c ∈ x.columns,
    c.inlineValues = none))

/-! ## Columns -/

/-- The type of a column that does not list its values. -/
def typeOf (enums : List Enumeration) (c : ColumnDef) : Draft.TypeChoice :=
  match Draft.knownEnum? { pool := {}, enums } c.typeName with
  | some e => ⟨e.columnType, [], false⟩
  | none => ⟨(BaseType.normalize c.typeName).name, c.params, (BaseType.normalize c.typeName).serial⟩

/-- The columns of definitions, behind those of a table. -/
def newColumns (enums : List Enumeration) (t : Table) : List ColumnDef → List Column
  | [] => []
  | c :: cs =>
    { Draft.columnOf (typeOf enums c) c with title := t.freeTitle c.name } ::
      newColumns enums (t.addColumn (Draft.columnOf (typeOf enums c) c)) cs

/-- The enumeration that types a column. -/
def typedBy? (enums : List Enumeration) (c : Column) : Option Enumeration :=
  c.enumName?.bind (enumByName? enums)

/-- The foreign keys that columns state themselves, by the table of that name. -/
def columnKeys (table : String) (definitions : List ColumnDef) (columns : List Column) :
    List NamedKey :=
  (definitions.zip columns).filterMap fun x =>
    x.1.reference.map fun ref => ⟨table, x.2.title, ref, ref.columns.headD "id"⟩

/-- The uses of enumerations in columns of the table of that name. -/
def columnUses (enums : List Enumeration) (table : String) (columns : List Column) :
    List NamedUse :=
  columns.filterMap fun c => (typedBy? enums c).map fun e => ⟨e.name, table, c.title⟩

/-! ## Keys of tables -/

/-- The foreign keys of the columns that a key of a table names. -/
def keysIn (t : Table) (key : KeyDef) : List NamedKey :=
  key.columns.zipIdx.filterMap fun x => (t.findColumn? x.1).map fun c =>
    ⟨t.name, c.title, key.reference,
      (key.reference.columns[x.2]?.or key.reference.columns.head?).getD "id"⟩

/-- What is said of the columns that a key names and the table does not have. -/
def missingIn (t : Table) (table : String) (key : KeyDef) : List Warning :=
  key.columns.zipIdx.filterMap fun x =>
    if (t.findColumn? x.1).isNone then some (.missingKeyColumn x.1 table) else none

/-! ## Phases -/

/-- **Table of a definition**, without an id. -/
def tableOf (enums : List Enumeration) (x : TableDef) : Table :=
  Draft.applyConstraints x
    { id := "", name := x.name, columns := newColumns enums { id := "", name := x.name } x.columns }

/-- The foreign keys that a definition states. -/
def keysOfTable (enums : List Enumeration) (x : TableDef) : List NamedKey :=
  columnKeys x.name x.columns (newColumns enums { id := "", name := x.name } x.columns) ++
    x.foreignKeys.flatMap (keysIn (tableOf enums x))

/-- The uses of enumerations in a definition. -/
def usesOfTable (enums : List Enumeration) (x : TableDef) : List NamedUse :=
  columnUses enums x.name (newColumns enums { id := "", name := x.name } x.columns)

/-- What is said of the keys of a definition. -/
def missingOfTable (enums : List Enumeration) (x : TableDef) : List Warning :=
  x.foreignKeys.flatMap (missingIn (tableOf enums x) x.name)

namespace Sheet

def warn (s : Sheet) (w : Warning) : Sheet :=
  { s with warnings := s.warnings ++ [w] }

/-- The table of that name, in any case. -/
def table? (s : Sheet) (name : String) : Option Table :=
  s.tables.find? fun t => Text.lower t.name == Text.lower name

/-- The sheet with another table of that name. -/
def onTable (s : Sheet) (name : String) (f : Table → Table) : Sheet :=
  { s with tables := s.tables.map fun t =>
    if Text.lower t.name = Text.lower name then f t else t }

/-- `CREATE TYPE`. The first definition of a name counts. -/
def declare (s : Sheet) (name : String) (values : List String) : Sheet :=
  match enumByName? s.enums name with
  | some _ => s.warn (.duplicateEnum name)
  | none =>
    { s with enums := s.enums ++ [values.foldl Enumeration.pushValue { id := "", name }] }

/-- `CREATE TABLE`. The first definition of a name counts, in any case. -/
def addTable (s : Sheet) (x : TableDef) : Sheet :=
  match s.table? x.name with
  | some _ => s.warn (.duplicateTable x.name x.line)
  | none =>
    { s with
      tables := s.tables ++ [tableOf s.enums x]
      keys := s.keys ++ keysOfTable s.enums x
      uses := s.uses ++ usesOfTable s.enums x
      warnings := s.warnings ++ missingOfTable s.enums x }

/-- `CREATE INDEX`. -/
def addIndex (s : Sheet) (table : String) (columns : List String) (unique : Bool) : Sheet :=
  match columns with
  | [column] => match s.table? table with
    | some _ => s.onTable table (Draft.constrain (if unique then .unique else .index) · column)
    | none => s.warn (.unknownIndexTable table)
  | _ => s

/-- `ALTER TABLE`. -/
def alter (s : Sheet) (table : String) (key : KeyDef) : Sheet :=
  match s.table? table with
  | some t =>
    { s with keys := s.keys ++ keysIn t key, warnings := s.warnings ++ missingIn t table key }
  | none => s.warn (.unknownAlteredTable table)

/-- **All statements**, phase by phase. -/
def ofStatements (statements : List Statement) : Sheet :=
  (statements.filterMap Draft.altered?).foldl (fun s x => s.alter x.1 x.2)
    ((statements.filterMap Draft.indexed?).foldl (fun s x => s.addIndex x.1 x.2.1 x.2.2)
      ((statements.filterMap Draft.defined?).foldl addTable
        ((statements.filterMap Draft.declared?).foldl (fun s x => s.declare x.1 x.2) {})))

end Sheet

/-! ## What a draft says -/

/-- The key of a table with that id. -/
def NamedKey.at (k : NamedKey) (id : String) : PendingKey :=
  ⟨id, k.column, k.reference, k.targetColumn⟩

namespace Draft

/-- The table of just that name has the id. -/
def HasTable (d : Draft) (name id : String) : Prop :=
  ∃ t ∈ d.tables, t.name = name ∧ t.id = id

/-- An enumeration of just that name has the id. -/
def HasEnum (d : Draft) (name id : String) : Prop :=
  ∃ e ∈ d.enums, e.name = name ∧ e.id = id

/-- The draft says that the key waits. -/
def SaysKey (d : Draft) (k : NamedKey) (p : PendingKey) : Prop :=
  ∃ id, d.HasTable k.table id ∧ p = k.at id

/-- The draft says that the column is typed by the enumeration. -/
def SaysUse (d : Draft) (u : NamedUse) (v : EnumUse) : Prop :=
  ∃ enumId id, d.HasEnum u.enumName enumId ∧ d.HasTable u.table id ∧
    v = ⟨enumId, u.enumName, id, u.column⟩

/-- **The draft says what is on the sheet**; its ids are different, and stand for names. -/
structure Says (previous : Option Graph) (s : Sheet) (d : Draft) : Prop where
  named : d.Named
  identified : d.Identified previous
  tables : d.tables.map Table.bare = s.tables
  enums : d.enums.map Enumeration.bare = s.enums
  keys : List.Forall₂ d.SaysKey s.keys d.pending
  uses : List.Forall₂ d.SaysUse s.uses d.enumUses
  warnings : d.warnings = s.warnings

/-- What has an id keeps it. -/
structure KeepsIds (d d' : Draft) : Prop where
  tables : ∀ name id, d.HasTable name id → d'.HasTable name id
  enums : ∀ name id, d.HasEnum name id → d'.HasEnum name id

section
variable {d d' : Draft}

theorem KeepsIds.of_subset (ht : d.tables ⊆ d'.tables) (he : d.enums ⊆ d'.enums) :
    KeepsIds d d' where
  tables := fun _ _ ⟨t, hm, h⟩ => ⟨t, ht hm, h⟩
  enums := fun _ _ ⟨e, hm, h⟩ => ⟨e, he hm, h⟩

theorem LateStep.keepsIds (h : LateStep d d') : KeepsIds d d' where
  tables := by
    rintro name id ⟨t, ht, hname, hid⟩
    obtain ⟨t', ht', ho⟩ := exists_mem_of_map_eq h.outline ht
    have hname' : t'.outline.name = t.outline.name := congrArg Table.name ho
    have hid' : t'.outline.id = t.outline.id := congrArg Table.id ho
    exact ⟨t', ht', hname'.trans hname, hid'.trans hid⟩
  enums := by
    rintro name id ⟨e, he, h'⟩
    exact ⟨e, h.enums ▸ he, h'⟩

theorem KeepsIds.keys (h : KeepsIds d d') {ks : List NamedKey} {ps : List PendingKey}
    (hk : List.Forall₂ d.SaysKey ks ps) : List.Forall₂ d'.SaysKey ks ps :=
  hk.imp fun _ _ ⟨id, hid, he⟩ => ⟨id, h.tables _ _ hid, he⟩

theorem KeepsIds.uses (h : KeepsIds d d') {us : List NamedUse} {vs : List EnumUse}
    (hu : List.Forall₂ d.SaysUse us vs) : List.Forall₂ d'.SaysUse us vs :=
  hu.imp fun _ _ ⟨enumId, id, he, ht, hv⟩ => ⟨enumId, id, h.enums _ _ he, h.tables _ _ ht, hv⟩

/-- **A later step** that changes tables as the sheet does. -/
theorem Says.lateStep {previous : Option Graph} {s s' : Sheet} (h : Says previous s d)
    (hs : LateStep d d') (ht : d'.tables.map Table.bare = s'.tables) (he : s'.enums = s.enums)
    (hk : List.Forall₂ d'.SaysKey s'.keys d'.pending) (hu : s'.uses = s.uses)
    (hw : d'.warnings = s'.warnings) : Says previous s' d' where
  named := h.named.mono hs.outline hs.tableIds
  identified := h.identified.mono hs.outline (hs.pool ▸ List.Subset.refl _)
  tables := ht
  enums := by
    rw [hs.enums, he]
    exact h.enums
  keys := hk
  uses := by
    rw [hs.uses, hu]
    exact hs.keepsIds.uses h.uses
  warnings := hw

end

/-! ## Enumerations -/

theorem bare_foldl_pushValue (values : List String) (e : Enumeration) :
    (values.foldl Enumeration.pushValue e).bare = values.foldl Enumeration.pushValue e.bare := by
  induction values generalizing e with
  | nil => rfl
  | cons v vs ih =>
    have hpush : (e.pushValue v).bare = e.bare.pushValue v := by
      unfold Enumeration.pushValue Enumeration.bare
      dsimp only
      split <;> rfl
    rw [List.foldl_cons, List.foldl_cons, ih, hpush]

theorem enumByName?_bare (enums : List Enumeration) (name : String) :
    enumByName? (enums.map Enumeration.bare) name =
      (enumByName? enums name).map Enumeration.bare := by
  unfold enumByName?
  rw [List.find?_map]
  rfl

/-- **An enumeration** is declared on the sheet as in the draft. -/
theorem Says.declare {previous : Option Graph} {s : Sheet} {d : Draft} (h : Says previous s d)
    (prior : Prior) (name : String) (values : List String) :
    Says previous (s.declare name values) (declareEnum prior d name values) := by
  have hfind : enumByName? s.enums name = (enumByName? d.enums name).map Enumeration.bare := by
    rw [← h.enums, enumByName?_bare]
  have hstep := declareEnum_step prior d name values
  have hids : KeepsIds d (declareEnum prior d name values) :=
    .of_subset (hstep.tables ▸ List.Subset.refl _) hstep.enums.subset
  unfold Sheet.declare
  rw [hfind]
  refine ⟨h.named.mono (by rw [hstep.tables]) hstep.tableIds,
    h.identified.mono (by rw [hstep.tables]) hstep.pool, ?_, ?_, ?_, ?_, ?_⟩
  · rw [hstep.tables, h.tables]
    cases enumByName? d.enums name <;> rfl
  · unfold declareEnum
    cases enumByName? d.enums name with
    | some e => exact h.enums
    | none =>
      unfold addEnum
      dsimp only [Option.map_none]
      rw [List.map_append, h.enums, List.map_singleton, bare_foldl_pushValue]
      rfl
  · rw [hstep.pending]
    have hkeys := hids.keys h.keys
    cases enumByName? d.enums name <;> exact hkeys
  · rw [hstep.uses]
    have huses := hids.uses h.uses
    cases enumByName? d.enums name <;> exact huses
  · unfold declareEnum
    cases enumByName? d.enums name with
    | some e => exact congrArg (· ++ [Warning.duplicateEnum name]) h.warnings
    | none => exact h.warnings

/-! ## Columns -/

theorem knownEnum?_congr {d d' : Draft} (h : d'.enums = d.enums) (name : String) :
    d'.knownEnum? name = d.knownEnum? name := by
  unfold knownEnum?
  rw [h]

theorem typeOf_bare (enums : List Enumeration) (c : ColumnDef) :
    typeOf (enums.map Enumeration.bare) c = typeOf enums c := by
  have hknown : knownEnum? { pool := {}, enums := enums.map Enumeration.bare } c.typeName =
      (knownEnum? { pool := {}, enums } c.typeName).map Enumeration.bare := by
    unfold knownEnum?
    dsimp only
    split
    · rfl
    · rw [enumByName?_bare]
      cases enumByName? enums c.typeName with
      | some e => rfl
      | none =>
        cases afterMark? enumTypeMark.toList (Text.lower c.typeName).toList with
        | none => rfl
        | some name => exact enumByName?_bare enums (.ofList name)
  unfold typeOf
  rw [hknown]
  cases knownEnum? { pool := {}, enums } c.typeName <;> rfl

/-- The type of a column that does not list its values is chosen by names. -/
theorem chooseType_eq_typeOf (prior : Prior) (d : Draft) (table : String) {c : ColumnDef}
    (h : c.inlineValues = none) : d.chooseType prior table c = (typeOf d.enums c, d) := by
  have hknown : knownEnum? { pool := {}, enums := d.enums } c.typeName =
      d.knownEnum? c.typeName :=
    knownEnum?_congr rfl _
  unfold chooseType typeOf
  rw [h, hknown]
  dsimp only
  cases d.knownEnum? c.typeName <;> rfl

theorem freeTitle_congr {t t' : Table} (h : t.columns = t'.columns) (title : String) :
    t.freeTitle title = t'.freeTitle title := by
  unfold Table.freeTitle Table.foldedTitles
  rw [h]

theorem newColumns_congr {enums enums' : List Enumeration}
    (he : ∀ c, typeOf enums c = typeOf enums' c) (definitions : List ColumnDef) {t t' : Table}
    (h : t.columns = t'.columns) :
    newColumns enums t definitions = newColumns enums' t' definitions := by
  induction definitions generalizing t t' with
  | nil => rfl
  | cons c cs ih =>
    unfold newColumns
    rw [freeTitle_congr h, he]
    congr 1
    refine ih ?_
    unfold Table.addColumn
    dsimp only
    rw [freeTitle_congr h, h]

/-- The columns of a table that has none yet. -/
theorem newColumns_untitled (enums : List Enumeration) (definitions : List ColumnDef) {t : Table}
    (h : t.columns = []) :
    newColumns enums t definitions = newColumns enums { id := "", name := t.name } definitions :=
  newColumns_congr (fun _ => rfl) definitions h

theorem tableOf_congr {enums enums' : List Enumeration}
    (he : ∀ c, typeOf enums c = typeOf enums' c) (x : TableDef) :
    tableOf enums x = tableOf enums' x := by
  unfold tableOf
  rw [newColumns_congr he x.columns rfl]

theorem keysOfTable_congr {enums enums' : List Enumeration}
    (he : ∀ c, typeOf enums c = typeOf enums' c) (x : TableDef) :
    keysOfTable enums x = keysOfTable enums' x := by
  unfold keysOfTable
  rw [newColumns_congr he x.columns rfl, tableOf_congr he]

theorem missingOfTable_congr {enums enums' : List Enumeration}
    (he : ∀ c, typeOf enums c = typeOf enums' c) (x : TableDef) :
    missingOfTable enums x = missingOfTable enums' x := by
  unfold missingOfTable
  rw [tableOf_congr he]

/-- The uses of enumerations in columns of the table of that id. -/
def usesAt (enums : List Enumeration) (id : String) (columns : List Column) : List EnumUse :=
  columns.filterMap fun c => (typedBy? enums c).map fun e => ⟨e.id, e.name, id, c.title⟩

theorem filterMap_cons_toList {α β : Type} (f : α → Option β) (a : α) (as : List α) :
    (a :: as).filterMap f = (f a).toList ++ as.filterMap f := by
  rw [List.filterMap_cons]
  cases f a <;> rfl

theorem usesAt_cons (enums : List Enumeration) (id : String) (c : Column) (cs : List Column) :
    usesAt enums id (c :: cs) =
      ((typedBy? enums c).map fun e => ⟨e.id, e.name, id, c.title⟩).toList ++ usesAt enums id cs :=
  filterMap_cons_toList _ _ _

theorem columnKeys_cons (table : String) (x : ColumnDef) (xs : List ColumnDef) (c : Column)
    (cs : List Column) : columnKeys table (x :: xs) (c :: cs) =
      (x.reference.map fun ref => ⟨table, c.title, ref, ref.columns.headD "id"⟩).toList ++
        columnKeys table xs cs :=
  filterMap_cons_toList _ _ _

/-- **Columns that list no values** only append columns, uses and keys that wait. -/
theorem foldl_addColumn_unlisted (prior : Prior) {definitions : List ColumnDef}
    (h : ∀ c ∈ definitions, c.inlineValues = none) (t : Table) (d : Draft) :
    definitions.foldl (addColumn prior) (t, d) =
      ({ t with columns := t.columns ++ newColumns d.enums t definitions },
        { d with
          enumUses := d.enumUses ++ usesAt d.enums t.id (newColumns d.enums t definitions)
          pending := d.pending ++ (columnKeys t.name definitions
            (newColumns d.enums t definitions)).map (·.at t.id) }) := by
  induction definitions generalizing t d with
  | nil => simp [newColumns, usesAt, columnKeys]
  | cons c cs ih =>
    have hstep := addColumn_eq prior t d c
    rw [chooseType_eq_typeOf prior d t.name (h c (.head _))] at hstep
    have hnew : newColumns d.enums t (c :: cs) =
        { columnOf (typeOf d.enums c) c with title := t.freeTitle c.name } ::
          newColumns d.enums (t.addColumn (columnOf (typeOf d.enums c) c)) cs := rfl
    have hkey : ((c.reference.map fun ref => (⟨t.name, t.freeTitle c.name, ref,
        ref.columns.headD "id"⟩ : NamedKey)).toList.map (·.at t.id)) =
          (c.reference.map fun ref => (⟨t.id, t.freeTitle c.name, ref,
            ref.columns.headD "id"⟩ : PendingKey)).toList := by
      cases c.reference <;> rfl
    rw [List.foldl_cons, hstep, ih fun x hx => h x (.tail _ hx), hnew, usesAt_cons,
      columnKeys_cons, List.map_append, hkey, List.append_cons t.columns, ← List.append_assoc,
      ← List.append_assoc]
    rfl

/-! ## Keys of tables -/

/-- **A key of a table** waits for each of its columns that the table has. -/
theorem queueKey_eq {d : Draft} {t : Table} {id : String} (ht : tableById? d.tables id = some t)
    (table : String) (key : KeyDef) : queueKey id table d key =
      { d with
        pending := d.pending ++ (keysIn t key).map (·.at id)
        warnings := d.warnings ++ missingIn t table key } := by
  unfold queueKey keysIn missingIn
  dsimp only
  generalize key.columns.zipIdx = sites
  induction sites generalizing d with
  | nil => simp
  | cons site sites ih =>
    rw [List.foldl_cons, filterMap_cons_toList, filterMap_cons_toList, ht, Option.bind_some]
    cases t.findColumn? site.1 with
    | some c =>
      dsimp only
      rw [ih]
      · simp [NamedKey.at]
      · exact ht
    | none =>
      dsimp only
      rw [ih]
      · simp [warn]
      · exact ht

/-- **Keys of a table**, one after the other. -/
theorem foldl_queueKey_eq (keys : List KeyDef) {d : Draft} {t : Table} {id : String}
    (ht : tableById? d.tables id = some t) (table : String) :
    keys.foldl (queueKey id table) d =
      { d with
        pending := d.pending ++ (keys.flatMap (keysIn t)).map (·.at id)
        warnings := d.warnings ++ keys.flatMap (missingIn t table) } := by
  induction keys generalizing d with
  | nil => simp
  | cons key keys ih =>
    rw [List.foldl_cons, queueKey_eq ht, ih]
    · simp
    · exact ht

theorem SaysKey.of_table {d : Draft} {name id : String} (ht : d.HasTable name id)
    {ks : List NamedKey} (hk : ∀ k ∈ ks, k.table = name) :
    List.Forall₂ d.SaysKey ks (ks.map (·.at id)) := by
  rw [List.forall₂_map_right_iff]
  exact List.forall₂_same.2 fun k hm => ⟨id, hk k hm ▸ ht, rfl⟩

theorem table_of_mem_keysIn {t : Table} {key : KeyDef} {k : NamedKey} (h : k ∈ keysIn t key) :
    k.table = t.name := by
  obtain ⟨x, -, hx⟩ := List.mem_filterMap.1 h
  obtain ⟨c, -, rfl⟩ := Option.map_eq_some_iff.1 hx
  rfl

theorem table_of_mem_columnKeys {table : String} {definitions : List ColumnDef}
    {columns : List Column} {k : NamedKey} (h : k ∈ columnKeys table definitions columns) :
    k.table = table := by
  obtain ⟨x, -, hx⟩ := List.mem_filterMap.1 h
  obtain ⟨ref, -, rfl⟩ := Option.map_eq_some_iff.1 hx
  rfl

/-! ## Tables -/

theorem bare_constrain (k : Constraint) (t : Table) (title : String) :
    (constrain k t title).bare = constrain k t.bare title := by
  have hfind : t.bare.findColumn? title = t.findColumn? title := rfl
  unfold constrain
  rw [hfind]
  cases t.findColumn? title <;> rfl

theorem bare_foldl_constrain (k : Constraint) (titles : List String) (t : Table) :
    (titles.foldl (constrain k) t).bare = titles.foldl (constrain k) t.bare := by
  induction titles generalizing t with
  | nil => rfl
  | cons title titles ih => rw [List.foldl_cons, List.foldl_cons, ih, bare_constrain]

theorem bare_applyConstraints (x : TableDef) (t : Table) :
    (applyConstraints x t).bare = applyConstraints x t.bare := by
  unfold applyConstraints
  rw [bare_foldl_constrain, bare_foldl_constrain]

theorem says_usesAt {d : Draft} {name id : String} (ht : d.HasTable name id)
    (columns : List Column) :
    List.Forall₂ d.SaysUse (columnUses (d.enums.map Enumeration.bare) name columns)
      (usesAt d.enums id columns) := by
  induction columns with
  | nil => exact .nil
  | cons c cs ih =>
    have htyped : typedBy? (d.enums.map Enumeration.bare) c =
        (typedBy? d.enums c).map Enumeration.bare := by
      unfold typedBy?
      cases c.enumName? with
      | none => rfl
      | some n => exact enumByName?_bare d.enums n
    rw [usesAt_cons]
    unfold columnUses
    rw [filterMap_cons_toList, htyped]
    refine List.rel_append ?_ ih
    cases hc : typedBy? d.enums c with
    | none => exact .nil
    | some e =>
      obtain ⟨n, -, hfound⟩ := Option.bind_eq_some_iff.1 hc
      exact .cons ⟨e.id, id, ⟨e, List.mem_of_find?_eq_some hfound, rfl, rfl⟩, ht, rfl⟩ .nil

theorem Says.table?_eq {previous : Option Graph} {s : Sheet} {d : Draft} (h : Says previous s d)
    (name : String) :
    s.table? name = (d.tables.find? fun t => Text.lower t.name == Text.lower name).map
      Table.bare := by
  unfold Sheet.table?
  rw [← h.tables, List.find?_map]
  rfl

theorem Named.tableId?_find {d : Draft} (h : d.Named) (name : String) :
    d.tableId? name =
      (d.tables.find? fun t => Text.lower t.name == Text.lower name).map (·.id) := by
  unfold tableId?
  rw [h.tableIds]
  exact lookup_map_eq_find? (fun t : Table => Text.lower t.name) (·.id) d.tables _

theorem Says.warn {previous : Option Graph} {s : Sheet} {d : Draft} (h : Says previous s d)
    (w : Warning) : Says previous (s.warn w) (d.warn w) :=
  h.lateStep ⟨rfl, id, rfl, rfl, rfl, rfl⟩ h.tables rfl h.keys rfl
    (congrArg (· ++ [w]) h.warnings)

/-- The table that a definition without listed values adds, and what waits in it. -/
theorem addTable_unlisted {prior : Prior} {d : Draft} {x : TableDef} {t : Table}
    (hid : d.tableId? x.name = none) (hx : ∀ c ∈ x.columns, c.inlineValues = none)
    (hs : AddStep prior x d (addTable prior d x) t)
    (hids : ((addTable prior d x).tables.map (·.id)).Nodup) :
    t.bare = tableOf d.enums x ∧ (addTable prior d x).enums = d.enums ∧
      (addTable prior d x).pending = d.pending ++ (keysOfTable d.enums x).map (·.at t.id) ∧
      (addTable prior d x).enumUses = d.enumUses ++
        usesAt d.enums t.id (newColumns d.enums { id := "", name := x.name } x.columns) ∧
      (addTable prior d x).warnings = d.warnings ++ missingOfTable d.enums x := by
  have htables := hs.tables
  have htid := hs.id
  have heq := addTable_eq prior hid
  rw [hs.realizes.name] at htid
  unfold columnsOf at heq
  dsimp only at heq
  rw [← htid, foldl_addColumn_unlisted prior hx] at heq
  dsimp only at heq
  rw [newColumns_untitled d.enums x.columns rfl] at heq
  generalize hadded : appendTable x t.id _ = added at heq
  obtain ⟨p, w, hqueue⟩ := foldl_queueStep (queueKey_step t.id x.name) x.foreignKeys added
  have hlast : t.bare = tableOf d.enums x := by
    rw [heq, hqueue, ← hadded] at htables
    have hsingle := List.append_cancel_left htables
    rw [← List.singleton_inj.1 hsingle]
    exact bare_applyConstraints x _
  have hfound : tableById? added.tables t.id = some t := by
    have hm : t ∈ (addTable prior d x).tables := hs.tables ▸ List.mem_append_right _ (.head _)
    have hfound := tableById?_of_nodup hids hm
    rw [heq, hqueue] at hfound
    exact hfound
  rw [heq, foldl_queueKey_eq x.foreignKeys hfound, ← hadded]
  have hkeys : keysIn t = keysIn (tableOf d.enums x) := by rw [← hlast]; rfl
  have hmissing : missingIn t = missingIn (tableOf d.enums x) := by rw [← hlast]; rfl
  refine ⟨hlast, rfl, ?_, rfl, ?_⟩
  · unfold keysOfTable
    rw [List.map_append, hkeys, ← List.append_assoc]
    rfl
  · rw [hmissing]
    rfl

/-- **A table** is added on the sheet as in the draft. -/
theorem Says.addTable {previous : Option Graph} {s : Sheet} {d : Draft} (h : Says previous s d)
    (distinct : ∀ g ∈ previous, (g.tables.map (·.id)).Nodup) {x : TableDef}
    (hx : ∀ c ∈ x.columns, c.inlineValues = none) :
    Says previous (s.addTable x) (addTable (Prior.ofGraph? previous) d x) := by
  have hid := h.named.tableId?_find x.name
  unfold Sheet.addTable
  rw [h.table?_eq]
  cases hfind : d.tables.find? fun t => Text.lower t.name == Text.lower x.name with
  | some t =>
    rw [hfind, Option.map_some] at hid
    have hsame : Draft.addTable (Prior.ofGraph? previous) d x =
        d.warn (.duplicateTable x.name x.line) := by
      unfold Draft.addTable
      rw [hid]
    rw [hsame]
    exact h.warn _
  | none =>
    rw [hfind, Option.map_none] at hid
    obtain ⟨t, hs⟩ := addTable_step (Prior.ofGraph? previous) hid
    have hname := hs.realizes.name
    have hidentified := h.identified.addStep h.named distinct hs (hname ▸ hid)
    obtain ⟨hbare, henums, hpending, huses, hwarnings⟩ :=
      addTable_unlisted hid hx hs hidentified.ids
    have htypes : ∀ c, typeOf d.enums c = typeOf s.enums c := by
      rw [← h.enums]
      exact fun c => (typeOf_bare d.enums c).symm
    rw [tableOf_congr htypes] at hbare
    rw [keysOfTable_congr htypes] at hpending
    rw [newColumns_congr htypes x.columns rfl] at huses
    rw [missingOfTable_congr htypes] at hwarnings
    dsimp only [Option.map_none]
    have hids : KeepsIds d (Draft.addTable (Prior.ofGraph? previous) d x) :=
      .of_subset (hs.tables ▸ List.subset_append_left _ _) (henums ▸ List.Subset.refl _)
    have htable : (Draft.addTable (Prior.ofGraph? previous) d x).HasTable x.name t.id :=
      ⟨t, hs.tables ▸ List.mem_append_right _ (.head _), hname, rfl⟩
    refine ⟨h.named.addStep hs (hname ▸ hid), hidentified, ?_, ?_, ?_, ?_, ?_⟩
    · rw [hs.tables, List.map_append, h.tables, List.map_singleton, hbare]
    · rw [henums, h.enums]
    · rw [hpending]
      refine List.rel_append (hids.keys h.keys) (SaysKey.of_table htable fun k hk => ?_)
      rcases List.mem_append.1 hk with hk | hk
      · exact table_of_mem_columnKeys hk
      · obtain ⟨key, -, hk⟩ := List.mem_flatMap.1 hk
        rw [table_of_mem_keysIn hk, ← hbare]
        exact hname
    · rw [huses, ← henums]
      refine List.rel_append (hids.uses h.uses) ?_
      have hsays := says_usesAt htable (newColumns s.enums { id := "", name := x.name } x.columns)
      rw [henums, h.enums] at hsays
      rw [henums]
      exact hsays
    · rw [hwarnings, h.warnings]

/-! ## Tables that are there -/

/-- **An update of one table**, by its id in the draft and by its name on the sheet. -/
theorem Says.updateTable {previous : Option Graph} {s : Sheet} {d : Draft} (h : Says previous s d)
    {t : Table} (ht : t ∈ d.tables) {name : String} (hname : Text.lower t.name = Text.lower name)
    {f : Table → Table} (hf : ∀ t, (f t).bare = f t.bare) :
    (d.updateTable t.id f).tables.map Table.bare = (s.onTable name f).tables := by
  have hids : (d.tables.map fun t => (id t).id).Nodup := h.identified.ids
  have hupdate := updateFirst_map Table.id hids t.id f
  rw [List.map_id] at hupdate
  unfold Draft.updateTable Sheet.onTable
  dsimp only
  rw [hupdate, ← h.tables, List.map_map, List.map_map]
  refine List.map_congr_left fun u hu => ?_
  dsimp only [Function.comp_apply, id]
  by_cases hut : u = t
  · rw [hut, if_pos (beq_self_eq_true _), hf]
    exact (if_pos hname).symm
  · have hid : ¬(u.id == t.id) = true := fun he =>
      hut (List.inj_on_of_nodup_map h.identified.ids hu ht (eq_of_beq he))
    have hlower : ¬Text.lower u.name = Text.lower name := fun he =>
      hut (List.inj_on_of_nodup_map h.named.names hu ht (he.trans hname.symm))
    rw [if_neg hid]
    exact (if_neg hlower).symm

/-- The table of a name, in the draft and on the sheet. -/
theorem Says.table?_cases {previous : Option Graph} {s : Sheet} {d : Draft}
    (h : Says previous s d) (name : String) :
    (d.tableId? name = none ∧ s.table? name = none) ∨
      ∃ t ∈ d.tables, Text.lower t.name = Text.lower name ∧ d.tableId? name = some t.id ∧
        tableById? d.tables t.id = some t ∧ s.table? name = some t.bare := by
  rw [h.named.tableId?_find, h.table?_eq]
  cases hfind : d.tables.find? fun t => Text.lower t.name == Text.lower name with
  | none => exact .inl ⟨rfl, rfl⟩
  | some t =>
    have ht := List.mem_of_find?_eq_some hfind
    have hname := List.find?_some hfind
    exact .inr ⟨t, ht, eq_of_beq hname, rfl, tableById?_of_nodup h.identified.ids ht, rfl⟩

/-- **An index** is held on the sheet as in the draft. -/
theorem Says.addIndex {previous : Option Graph} {s : Sheet} {d : Draft} (h : Says previous s d)
    (table : String) (columns : List String) (unique : Bool) :
    Says previous (s.addIndex table columns unique) (d.addIndex table columns unique) := by
  have hstep : LateStep d (d.addIndex table columns unique) :=
    indexPhase_step d (.createIndex table columns unique)
  unfold Sheet.addIndex
  unfold Draft.addIndex at hstep ⊢
  match columns with
  | [] => exact h
  | _ :: _ :: _ => exact h
  | [column] =>
    rcases h.table?_cases table with ⟨hid, hs⟩ | ⟨t, ht, hname, hid, -, hs⟩
    · dsimp only
      rw [hid, hs]
      exact h.warn _
    · dsimp only at hstep ⊢
      rw [hid] at hstep ⊢
      rw [hs]
      exact h.lateStep hstep (h.updateTable ht hname fun t => bare_constrain _ t column) rfl
        (hstep.keepsIds.keys h.keys) rfl h.warnings

/-- **A key that is added to a table** waits on the sheet as in the draft. -/
theorem Says.alter {previous : Option Graph} {s : Sheet} {d : Draft} (h : Says previous s d)
    (table : String) (key : KeyDef) :
    Says previous (s.alter table key) (keyPhase d (.alterForeignKey table key)) := by
  have hstep := keyPhase_step d (.alterForeignKey table key)
  unfold Sheet.alter
  unfold keyPhase at hstep ⊢
  rcases h.table?_cases table with ⟨hid, hs⟩ | ⟨t, ht, hname, hid, hfound, hs⟩
  · dsimp only
    rw [hid, hs]
    exact h.warn _
  · dsimp only at hstep ⊢
    rw [hid] at hstep ⊢
    dsimp only at hstep ⊢
    rw [queueKey_eq hfound] at hstep ⊢
    rw [hs]
    have hwaits : List.Forall₂ d.SaysKey (keysIn t key) ((keysIn t key).map (·.at t.id)) :=
      SaysKey.of_table ⟨t, ht, rfl, rfl⟩ fun k hk => table_of_mem_keysIn hk
    exact h.lateStep hstep h.tables rfl (List.rel_append h.keys hwaits) rfl
      (congrArg (· ++ missingIn t table key) h.warnings)

/-! ## All phases -/

/-- What each step keeps is kept by all of them. -/
theorem Says.foldl {α : Type} {previous : Option Graph} {s : Sheet} {d : Draft}
    (h : Says previous s d) (as : List α) {f : Sheet → α → Sheet} {g : Draft → α → Draft}
    (hstep : ∀ a ∈ as, ∀ s d, Says previous s d → Says previous (f s a) (g d a)) :
    Says previous (as.foldl f s) (as.foldl g d) := by
  induction as generalizing s d with
  | nil => exact h
  | cons a as ih => exact ih (hstep a (.head _) s d h) fun b hb => hstep b (.tail _ hb)

/-- **A draft says what its sheet says**, whatever the graph before. -/
theorem says_ofStatements {previous : Option Graph}
    (distinct : ∀ g ∈ previous, (g.tables.map (·.id)).Nodup) {statements : List Statement}
    (h : Unlisted statements) :
    Says previous (Sheet.ofStatements statements) (ofStatements previous statements) := by
  have hstart : Says previous {} { pool := IdPool.ofGraph? previous } :=
    ⟨⟨rfl, List.nodup_nil⟩, .start previous, rfl, rfl, .nil, .nil, rfl⟩
  have henums := hstart.foldl (statements.filterMap declared?) fun x _ _ _ hs =>
    hs.declare (Prior.ofGraph? previous) x.1 x.2
  have htables := henums.foldl (statements.filterMap defined?) (f := Sheet.addTable)
    (g := Draft.addTable (Prior.ofGraph? previous)) fun x hx _ _ hs => hs.addTable distinct (h x hx)
  have hindexes := htables.foldl (statements.filterMap indexed?) fun x _ _ _ hs =>
    hs.addIndex x.1 x.2.1 x.2.2
  have hkeys := hindexes.foldl (statements.filterMap altered?) fun x _ _ _ hs =>
    hs.alter x.1 x.2
  rw [ofStatements_eq]
  exact hkeys

end Draft

end Recovery

end DdlGraph
