import DdlGraph.Proofs.DialectTypes
import DdlGraph.Proofs.Rebuild
import DdlGraph.Proofs.WellFormed

/-!
# Defaults come back

What a default could disturb is the *sketch* of a graph: the names of its tables, and the titles of
their columns with their defaults. A text whose definitions have names of their own gives back the
sketch that it says (`sketches_ofStatements`), in every phase and whatever was there before. The
text of a graph of built-in types says the sketch of the graph, if its defaults are safe.

* `recover_sketch`: tables, titles and defaults come back, in every dialect;
* `recover_sketch_injected`: a default that is not safe brings a column with it.
-/

namespace DdlGraph

open Sql Ddl

/-- **Sketch of a table**: its name, and the titles of its columns with their defaults. -/
def Table.sketch (t : Table) : String × List (String × Option String) :=
  (t.name, t.columns.map fun c => (c.title, c.defaultValue))

/-- The sketch that a definition says. -/
def Sql.TableDef.sketch (definition : TableDef) : String × List (String × Option String) :=
  (definition.name, definition.columns.map fun c => (c.name, c.defaultValue))

theorem Table.sketch_outline (t : Table) : t.outline.sketch = t.sketch := by
  unfold sketch outline
  rw [List.map_map]
  rfl

namespace Recovery.Draft

/-! ## Definitions with names of their own -/

/-- What waits for the target of the reference of a column, in the table of that id. -/
def columnPending? (id : String) (c : ColumnDef) : Option PendingKey :=
  c.reference.map fun ref => ⟨id, c.name, ref, ref.columns.headD "id"⟩

/-- **Titles that are new one after the other** are kept, and so are the defaults. The references
of the columns wait. -/
theorem foldl_addColumn_fresh (prior : Prior) {definitions : List ColumnDef} {t : Table}
    (hn : ((t.columns.map fun c => Text.lower c.title) ++
      definitions.map fun c => Text.lower c.name).Nodup)
    (d : Draft) : (definitions.foldl (addColumn prior) (t, d)).1.sketch =
        (t.name, t.sketch.2 ++ definitions.map fun c => (c.name, c.defaultValue)) ∧
      (definitions.foldl (addColumn prior) (t, d)).2.pending =
        d.pending ++ definitions.filterMap (columnPending? t.id) := by
  induction definitions generalizing t d with
  | nil => exact ⟨congrArg (Prod.mk t.name) (List.append_nil _).symm, (List.append_nil _).symm⟩
  | cons c definitions ih =>
    have hnew : Text.lower c.name ∉ t.columns.map fun c => Text.lower c.title :=
      fun hm => (List.nodup_append.1 hn).2.2 _ hm _ (.head _) rfl
    obtain ⟨hstep, -, hpending⟩ := addColumn_fresh prior d hnew
    have hn' : (((addColumn prior (t, d) c).1.columns.map fun c => Text.lower c.title) ++
        definitions.map fun c => Text.lower c.name).Nodup := by
      rw [hstep, List.map_append, List.append_assoc]
      exact hn
    obtain ⟨hsketch, hwaits⟩ := ih hn' (addColumn prior (t, d) c).2
    constructor
    · rw [List.foldl_cons, hsketch, hstep]
      unfold Table.sketch
      simp only [List.map_append, List.append_assoc]
      rfl
    · have hid : (addColumn prior (t, d) c).1.id = t.id := by rw [hstep]
      have hcons : (c :: definitions).filterMap (columnPending? t.id) =
          (columnPending? t.id c).toList ++ definitions.filterMap (columnPending? t.id) := by
        rw [List.filterMap_cons]
        cases columnPending? t.id c <;> rfl
      rw [List.foldl_cons, hwaits, hpending, hid, List.append_assoc, hcons]
      rfl

/-- **The table of a new name** has the sketch of its definition. The references of its columns
wait, and then the foreign keys that stand behind them are noted. -/
theorem addTable_fresh (prior : Prior) {d : Draft} {definition : TableDef}
    (h : d.tableId? definition.name = none)
    (hn : (definition.columns.map fun c => Text.lower c.name).Nodup) :
    ∃ t r, AddStep prior definition d (addTable prior d definition) t ∧
      t.sketch = definition.sketch ∧ r.tables = d.tables ++ [t] ∧
      r.pending = d.pending ++ definition.columns.filterMap (columnPending? t.id) ∧
      addTable prior d definition =
        definition.foreignKeys.foldl (queueKey t.id definition.name) r := by
  obtain ⟨t, hs⟩ := addTable_step prior h
  let place := placeTable prior d.pool definition.name d.tables.length
  let empty : Table :=
    { id := place.1.id, name := definition.name, position := place.1.position,
      color := place.1.color }
  let r := appendTable definition place.1.id (columnsOf prior d definition)
  obtain ⟨hsketch, hpending⟩ :=
    foldl_addColumn_fresh prior (t := empty) hn { d with pool := place.2 }
  have hcolumns := foldl_addColumn_step prior definition.columns empty { d with pool := place.2 }
  have hempty : empty.Ok := ⟨List.nodup_nil, fun _ hc => nomatch hc⟩
  have hok := ok_foldl_addColumn prior definition.columns hempty { d with pool := place.2 }
  obtain ⟨p, w, hq⟩ := foldl_queueStep (queueKey_step place.1.id definition.name)
    definition.foreignKeys r
  have htables := hs.tables
  have hadd := addTable_eq prior h
  rw [hadd] at htables
  dsimp only at htables
  rw [hq] at htables
  have happend : d.tables ++ [applyConstraints definition (columnsOf prior d definition).1] =
      d.tables ++ [t] := by
    refine Eq.trans ?_ htables
    exact congrArg (· ++ _) hcolumns.tables.symm
  obtain rfl := List.singleton_inj.1 (List.append_cancel_left happend)
  have houtline := (outline_applyConstraints definition hok).1
  have hname : (applyConstraints definition (columnsOf prior d definition).1).name =
      definition.name := hs.realizes.name
  have hid : (applyConstraints definition (columnsOf prior d definition).1).id = place.1.id := by
    rw [hs.id, hname]
  refine ⟨_, r, hs, ?_, htables, ?_, ?_⟩
  · rw [← Table.sketch_outline]
    refine (congrArg Table.sketch houtline).trans ?_
    rw [Table.sketch_outline]
    exact hsketch
  · rw [hid]
    exact hpending
  · rw [hid]
    exact hadd

/-- **All tables** have the sketches of their definitions, if their names are new one after the
other. -/
theorem sketches_foldl_addTable (prior : Prior) {definitions : List TableDef} {d : Draft}
    (hd : Named d)
    (hnames : ((d.tables.map fun t => Text.lower t.name) ++
      definitions.map fun x => Text.lower x.name).Nodup)
    (htitles : ∀ x ∈ definitions, (x.columns.map fun c => Text.lower c.name).Nodup) :
    (definitions.foldl (addTable prior) d).tables.map Table.sketch =
      d.tables.map Table.sketch ++ definitions.map TableDef.sketch := by
  induction definitions generalizing d with
  | nil => exact (List.append_nil _).symm
  | cons definition definitions ih =>
    have hnew : Text.lower definition.name ∉ d.tables.map fun t => Text.lower t.name :=
      fun hm => (List.nodup_append.1 hnames).2.2 _ hm _ (.head _) rfl
    have hnone : d.tableId? definition.name = none := hd.tableId?_eq_none.2 hnew
    obtain ⟨t, -, hs, hsketch, -⟩ := addTable_fresh prior hnone (htitles definition (.head _))
    have hname : t.name = definition.name := congrArg Prod.fst hsketch
    have hnames' : (((addTable prior d definition).tables.map fun t => Text.lower t.name) ++
        definitions.map fun x => Text.lower x.name).Nodup := by
      rw [hs.tables, List.map_append, List.append_assoc, List.map_cons, hname]
      exact hnames
    rw [List.foldl_cons, ih (hd.addStep hs (hname ▸ hnone)) hnames' fun x hx => htitles x (.tail _ hx),
      hs.tables, List.map_append, List.append_assoc, List.map_cons, hsketch]
    rfl

/-- **Tables of a script** whose definitions have names of their own: no phase changes what they
say. -/
theorem sketches_ofStatements (previous : Option Graph) {statements : List Statement}
    (hnames : ((statements.filterMap defined?).map fun x => Text.lower x.name).Nodup)
    (htitles : ∀ x ∈ statements.filterMap defined?,
      (x.columns.map fun c => Text.lower c.name).Nodup) :
    (ofStatements previous statements).links.1.tables.map Table.sketch =
      (statements.filterMap defined?).map TableDef.sketch := by
  let prior := Prior.ofGraph? previous
  let declared := statements.foldl (enumPhase prior) { pool := IdPool.ofGraph? previous }
  have henums := foldl_enumPhase_step prior statements { pool := IdPool.ofGraph? previous }
  have hnil : declared.tables = [] := henums.tables
  have hstart : Named { pool := IdPool.ofGraph? previous } := ⟨rfl, List.nodup_nil⟩
  have hnamed : Named declared := hstart.mono (by rw [henums.tables]) henums.tableIds
  have htables := foldl_of_phase (tablePhase prior) defined? (addTable prior)
    (fun d s => by cases s <;> rfl) statements declared
  have hlate := (LateStep.foldl indexPhase_step statements
    (statements.foldl (tablePhase prior) declared)).trans
      (LateStep.foldl keyPhase_step statements _)
  have hlinks := lateStep_links (ofStatements previous statements)
  have houtline := map_outline_congr Table.sketch Table.sketch_outline (hlate.trans hlinks).outline
  refine houtline.trans ?_
  rw [htables, sketches_foldl_addTable prior hnamed ?_ htitles, hnil]
  · rfl
  · rw [hnil]
    exact hnames

end Recovery.Draft

/-! ## Graphs of built-in types -/

/-- **Graph of built-in types.** Names of tables, and titles in each of them, differ in more than
case. Foreign keys, if there are any, have actions that there are. -/
structure Graph.BuiltInOnly (g : Graph) : Prop where
  nonempty : g.tables ≠ []
  names : (g.tables.map fun t => Text.lower t.name).Nodup
  titles : ∀ t ∈ g.tables, (t.columns.map fun c => Text.lower c.title).Nodup
  types : ∀ t ∈ g.tables, ∀ c ∈ t.columns, ∃ base n, BuiltIn base n c
  actions : ∀ t ∈ g.tables, ∀ c ∈ t.columns, ∀ k ∈ c.foreignKey,
    (KeySpec.ofForeignKey t c k).HasActions

/-- **Safe defaults of a graph**, in a text of the dialect whose strings are escaped as `b` says. -/
def Graph.DefaultsSafe (g : Graph) (dialect : Dialect) (b : Bool) : Prop :=
  ∀ t ∈ g.tables, ∀ c ∈ t.columns, ∀ v ∈ c.defaultValue,
    SafeDefault v ∧ BackslashSafe dialect b v

/-- **Actions of a graph**: those of its columns are actions that there are. -/
def Graph.HasActions (g : Graph) : Prop :=
  ∀ t ∈ g.tables, ∀ c ∈ t.columns, ∀ k ∈ c.foreignKey, (KeySpec.ofForeignKey t c k).HasActions

/-- The actions of a key are those of a column. -/
theorem Graph.HasActions.of_mem {g : Graph} (hg : g.HasActions) {key : KeySpec}
    (h : key ∈ keysOf g) : key.HasActions := by
  obtain ⟨x, hx, rfl⟩ := List.mem_map.1 h
  obtain ⟨key, hkey, rfl⟩ := List.mem_map.1 (mem_of_mem_firstOfEach hx)
  dsimp only
  rcases List.mem_append.1 hkey with hkey | hkey
  · obtain ⟨e, -, he⟩ := List.mem_filterMap.1 hkey
    unfold KeySpec.ofEdge? at he
    obtain ⟨source, hs, he⟩ := Option.bind_eq_some_iff.1 he
    obtain ⟨target, -, he⟩ := Option.bind_eq_some_iff.1 he
    obtain rfl := Option.some.inj he
    have hactions : ∀ k ∈ ((source.column? e.sourceColumn).bind (·.foreignKey)).filter
        (fun k => Text.sameAscii k.table target.name), ∃ t c, (KeySpec.ofForeignKey t c k).HasActions := by
      intro k hk
      obtain ⟨c, hc, hck⟩ := Option.bind_eq_some_iff.1 (Option.filter_eq_some_iff.1 hk).1
      exact ⟨source, c, hg source (List.mem_of_find?_eq_some hs) c
        (List.mem_of_find?_eq_some hc) k hck⟩
    constructor
    · intro text htext
      obtain ⟨k, hk, htext⟩ := Option.bind_eq_some_iff.1 htext
      obtain ⟨t, c, hall⟩ := hactions k hk
      exact hall.onDelete text htext
    · intro text htext
      obtain ⟨k, hk, htext⟩ := Option.bind_eq_some_iff.1 htext
      obtain ⟨t, c, hall⟩ := hactions k hk
      exact hall.onUpdate text htext
  · obtain ⟨t, ht, hkey⟩ := List.mem_flatMap.1 hkey
    obtain ⟨c, hc, hkey⟩ := List.mem_filterMap.1 hkey
    obtain ⟨k, hk, rfl⟩ := Option.map_eq_some_iff.1 hkey
    exact hg t ht c hc k (Option.filter_eq_some_iff.1 hk).1

/-- What stands inside of a table is a key of the graph. -/
theorem mem_keysOf_of_keyOfColumn? {s : Settings} {keys : List KeySpec} {t : Table} {c : Column}
    {key : KeySpec} (h : key ∈ keyOfColumn? (insideKeys s keys t) c) : key ∈ keys := by
  have hinside := List.mem_reverse.1 (List.mem_of_find?_eq_some h)
  unfold insideKeys at hinside
  split at hinside
  · exact (List.mem_filter.1 hinside).1
  · cases hinside

namespace Graph.BuiltInOnly

variable {g : Graph} (hg : g.BuiltInOnly)
include hg

/-- **A graph of built-in types is readable** in every dialect, if its defaults are safe. -/
theorem exists_readable {s : Settings}
    (hn : ∀ t ∈ g.tables, ∀ c ∈ t.columns, NamesColumn s c.title) {b : Bool}
    (hd : g.DefaultsSafe s.dialect b)
    (hv : s.dialect = .postgresql → b = false ∨ ∀ e ∈ g.enums, ∀ v ∈ e.values, '\\' ∉ v.toList) :
    ∃ typed, Readable s g typed b ∧ ∀ t ∈ g.tables, ∀ c ∈ t.columns, ∀ keyHere,
      TypeSays (typeClause s g c keyHere) c (typed c keyHere) := by
  have htypes : ∀ c keyHere, ∃ d, ∀ t ∈ g.tables, c ∈ t.columns →
      TypeReads b ((typeClause s g c keyHere).text s).toList c.title d ∧
        TypeSays (typeClause s g c keyHere) c d := by
    intro c keyHere
    by_cases hc : ∃ t ∈ g.tables, c ∈ t.columns
    · obtain ⟨t, ht, hc⟩ := hc
      obtain ⟨base, n, htype⟩ := hg.types t ht c hc
      obtain ⟨d, hreads, hsaid, -⟩ := htype.exists_typeReads s g keyHere
      exact ⟨d, fun _ _ _ => ⟨hreads b, hsaid⟩⟩
    · exact ⟨{ name := "" }, fun t ht hm => absurd ⟨t, ht, hm⟩ hc⟩
  choose typed htyped using htypes
  refine ⟨typed, ⟨hv, fun t ht => ?_, fun key => HasActions.of_mem hg.actions⟩,
    fun t ht c hc keyHere => (htyped c keyHere t ht hc).2⟩
  refine ⟨hn t ht, fun c hc => ⟨?_, ?_, ?_⟩⟩
  · exact (htyped c _ t ht hc).1
  · intro v hm
    obtain ⟨hsafe, hback⟩ := hd t ht c hc v hm
    exact ⟨_, restores_of_safe hsafe hback⟩
  · exact fun key hkey => HasActions.of_mem hg.actions (mem_keysOf_of_keyOfColumn? hkey)

omit hg in
/-- The definitions of the tables say their sketches. -/
theorem sketch_tableDef {s : Settings} {typed : Column → Bool → ColumnDef}
    (h : ∀ t ∈ g.tables, ∀ c ∈ t.columns, ∀ keyHere,
      TypeSays (typeClause s g c keyHere) c (typed c keyHere))
    {t : Table} (ht : t ∈ g.tables) (inside : List KeySpec) :
    (tableDef s g typed inside t).sketch = t.sketch := by
  unfold TableDef.sketch Table.sketch tableDef
  rw [List.map_map]
  refine congrArg (Prod.mk t.name) (List.map_congr_left fun c hc => ?_)
  have hsaid := h t ht c hc (c.isPrimary && !promotesKey t inside)
  dsimp only [Function.comp_apply]
  rw [name_columnDef _ hsaid, defaultValue_columnDef _ hsaid]

end Graph.BuiltInOnly

namespace Recovery

open Draft

/-- A text whose draft has tables gives their sketches. -/
theorem exists_recover_of_sketches {text : String} {previous : Option Graph}
    {sketches : List (String × List (String × Option String))}
    (h : (ofStatements previous (Script.ofText text).statements).links.1.tables.map Table.sketch =
      sketches) (hne : sketches ≠ []) :
    ∃ o, recover text previous = .ok o ∧ o.graph.tables.map Table.sketch = sketches := by
  refine ⟨_, recover_eq_ok_iff.2 ⟨fun hnil => hne ?_, rfl⟩, h⟩
  rw [← h, hnil]
  rfl

/-- **Definitions among the statements of a graph** say the sketches of its tables. -/
theorem sketches_statementsOf {s : Settings} {g : Graph} {typed : Column → Bool → ColumnDef}
    (htype : ∀ t ∈ g.tables, ∀ c ∈ t.columns, ∀ keyHere,
      TypeSays (typeClause s g c keyHere) c (typed c keyHere)) {statements : List Statement}
    (h : statements.map (Statement.reline fun _ => 0) = statementsOf s g typed) :
    (statements.filterMap defined?).map TableDef.sketch = g.tables.map Table.sketch := by
  have hlines := filterMap_reline defined? (f := fun _ => 0) (u := TableDef.reline fun _ => 0)
    (fun s => by cases s <;> rfl) statements
  rw [h, defined_statementsOf] at hlines
  have hmap := congrArg (List.map TableDef.sketch) hlines
  rw [List.map_map, List.map_map] at hmap
  refine hmap.symm.trans (List.map_congr_left fun t htm => ?_)
  exact Graph.BuiltInOnly.sketch_tableDef htype htm _

/-- Definitions that say the sketches of tables have names of their own, as the tables have. -/
theorem nodup_names_of_sketches {definitions : List TableDef} {tables : List Table}
    (h : definitions.map TableDef.sketch = tables.map Table.sketch)
    (hn : (tables.map fun t => Text.lower t.name).Nodup) :
    (definitions.map fun x => Text.lower x.name).Nodup := by
  have hmap := congrArg (List.map fun x => Text.lower x.1) h
  rw [List.map_map, List.map_map] at hmap
  exact (congrArg List.Nodup hmap).mpr hn

/-- **Defaults are inert and come back**: the text of a graph of built-in types, in every dialect
and after every graph before, gives its tables with their titles and defaults, if the defaults are
safe. -/
theorem recover_sketch {s : Settings} (hs : s.caseSensitive = true) {g : Graph}
    (hg : g.BuiltInOnly) {time : String} (ht : '\n' ∉ time.toList)
    (hd : g.DefaultsSafe s.dialect (Dialect.detect (script s time g)).escapesBackslash)
    (hv : s.dialect = .postgresql → Dialect.detect (script s time g) ≠ .mysql ∨
      ∀ e ∈ g.enums, ∀ v ∈ e.values, '\\' ∉ v.toList) (previous : Option Graph) :
    ∃ o, recover (script s time g) previous = .ok o ∧
      o.graph.tables.map Table.sketch = g.tables.map Table.sketch := by
  obtain ⟨typed, hread, htype⟩ := hg.exists_readable
    (fun t _ c _ => namesColumn_of_caseSensitive hs c.title) hd fun h =>
      (hv h).imp_left escapesBackslash_eq_false
  have hsketches := sketches_statementsOf htype
    (congrArg Script.statements (ofText_script ht hread))
  have hnames := nodup_names_of_sketches hsketches hg.names
  have htitles : ∀ x ∈ (Script.ofText (script s time g)).statements.filterMap defined?,
      (x.columns.map fun c => Text.lower c.name).Nodup := by
    intro x hx
    obtain ⟨t, htm, hsketch⟩ := List.mem_map.1 (hsketches ▸ List.mem_map_of_mem hx)
    have hmap := congrArg (fun x => x.2.map fun c => Text.lower c.1) hsketch
    unfold Table.sketch TableDef.sketch at hmap
    simp only [List.map_map] at hmap
    exact (congrArg List.Nodup hmap).mp (hg.titles t htm)
  have hall := sketches_ofStatements previous hnames htitles
  rw [hsketches] at hall
  exact exists_recover_of_sketches hall (mt List.map_eq_nil_iff.1 hg.nonempty)

/-- A word for a value, and a text that would end its statement if it were no literal. -/
theorem recover_sketch_users :
    let g : Graph :=
      { tables := [
          { id := "t1", name := "users", columns := [
              { title := "day", dataType := "date", defaultValue := some "CURRENT_DATE" },
              { title := "note", dataType := "varchar", params := ["20"],
                defaultValue := some "it's, evil INT); --" }] }] }
    ∃ o, recover (script { dialect := .mysql } "now" g) none = .ok o ∧
      o.graph.tables.map Table.sketch = g.tables.map Table.sketch := by
  intro g
  have htypes : ∀ t ∈ g.tables, ∀ c ∈ t.columns, ∃ base n, BuiltIn base n c := by
    intro t ht c hc
    obtain rfl := List.mem_singleton.1 ht
    rcases List.mem_cons.1 hc with rfl | hc
    · exact ⟨"date", 0, by decide, by decide, nofun⟩
    · obtain rfl := List.mem_singleton.1 hc
      exact ⟨"varchar", 0, by decide, by decide, by decide⟩
  have hactions : ∀ t ∈ g.tables, ∀ c ∈ t.columns, ∀ k ∈ c.foreignKey,
      (KeySpec.ofForeignKey t c k).HasActions := by
    intro t ht c hc k hk
    obtain rfl := List.mem_singleton.1 ht
    rcases List.mem_cons.1 hc with rfl | hc
    · cases hk
    · obtain rfl := List.mem_singleton.1 hc
      cases hk
  have hg : g.BuiltInOnly := ⟨by decide, by decide, by decide, htypes, hactions⟩
  have hd : ∀ b, g.DefaultsSafe .mysql b := by
    intro b t ht c hc v hv
    obtain rfl := List.mem_singleton.1 ht
    rcases List.mem_cons.1 hc with rfl | hc
    · obtain rfl := Option.some.inj hv
      exact ⟨.inr ⟨by decide +kernel, by decide +kernel⟩, fun hm => absurd hm (by decide)⟩
    · obtain rfl := List.mem_singleton.1 hc
      obtain rfl := Option.some.inj hv
      exact ⟨.inl (by decide), fun hm => absurd hm (by decide)⟩
  exact recover_sketch (s := { dialect := .mysql }) rfl hg (show '\n' ∉ "now".toList by decide)
    (hd _) nofun none

/-- A default that begins like the name of a date stands in the text as it is, and its rest is read
as a column. -/
theorem recover_sketch_injected :
    let g : Graph :=
      { tables := [
          { id := "t1", name := "users", columns := [
              { title := "day", dataType := "date",
                defaultValue := some "CURRENT_DATE, evil INT" }] }] }
    g.BuiltInOnly ∧ g.edges = [] ∧
      ∃ o, recover (script { dialect := .postgresql } "now" g) (some g) = .ok o ∧
        o.graph.tables.map Table.sketch =
          [("users", [("day", some "CURRENT_DATE"), ("evil", none)])] := by
  intro g
  refine ⟨⟨by decide, by decide, fun t ht => ?_, fun t ht c hc => ?_, fun t ht c hc k hk => ?_⟩,
    rfl, ?_⟩
  · obtain rfl := List.mem_singleton.1 ht
    exact List.nodup_singleton _
  · obtain rfl := List.mem_singleton.1 ht
    obtain rfl := List.mem_singleton.1 hc
    exact ⟨"date", 0, by decide, by decide, nofun⟩
  · obtain rfl := List.mem_singleton.1 ht
    obtain rfl := List.mem_singleton.1 hc
    cases hk
  · exact exists_recover_of_sketches (by decide +kernel) (by decide)

end Recovery

end DdlGraph
