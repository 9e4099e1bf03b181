import DdlGraph.Proofs.NamedLinks

/-!
# Keys that a script states

A script states a foreign key in three places: with a column, behind the columns of a table, or in a
statement of its own. Which keys these are can be read off the statements and the tables that they
give: constraints and targets that are set later change no title. The phases of a draft leave just
these keys waiting, in this order. This holds for every script, also for one with tables that are
defined twice, columns of one title, and keys of columns that are not there.

* `statedKeys`: the keys of statements in tables;
* `statedKeys_outline`: they depend on the outlines of the tables only;
* `addTable_pending`, `foldl_addTable_pending`: what definitions leave waiting;
* `pending_ofStatements`: what all phases leave waiting.
-/

namespace DdlGraph.Recovery

open Sql

/-! ## Keys of statements -/

/-- **Keys of a definition** in its table: those of its columns, and those behind them. -/
def definedKeys (x : TableDef) (t : Table) : List PendingKey :=
  (columnKeys t.name x.columns t.columns ++ x.foreignKeys.flatMap (keysIn t)).map (·.at t.id)

/-- The table of that name, in any case. -/
def tableNamed? (tables : List Table) (name : String) : Option Table :=
  tables.find? fun t => Text.lower t.name == Text.lower name

/-- **Keys that are added** to the table of that name. -/
def addedKeys (tables : List Table) (name : String) (key : KeyDef) : List PendingKey :=
  match tableNamed? tables name with
  | some t => (keysIn t key).map (·.at t.id)
  | none => []

/-- **Keys of a script** in the tables that it gives, one for each column: first those of the first
definitions, which the tables are in the order of, and then those that are added. -/
def statedKeys (statements : List Statement) (tables : List Table) : List PendingKey :=
  (((Draft.firstDefinitions statements).zip tables).flatMap fun x => definedKeys x.1 x.2) ++
    (statements.filterMap Draft.altered?).flatMap fun x => addedKeys tables x.1 x.2

/-! ## Outlines -/

theorem Table.outline_eq (t : Table) : t.outline = t.mapColumns Column.outline :=
  rfl

theorem keepsTitles_outline : KeepsTitles Column.outline :=
  fun _ => rfl

theorem keysIn_outline (t : Table) (key : KeyDef) : keysIn t.outline key = keysIn t key := by
  unfold keysIn
  simp only [Table.outline_eq, Table.findColumn?_mapColumns keepsTitles_outline, Option.map_map]
  rfl

theorem columnKeys_outline (table : String) (definitions : List ColumnDef)
    (columns : List Column) :
    columnKeys table definitions (columns.map Column.outline) =
      columnKeys table definitions columns := by
  unfold columnKeys
  rw [List.zip_map_right, List.filterMap_map]
  rfl

theorem definedKeys_outline (x : TableDef) (t : Table) :
    definedKeys x t.outline = definedKeys x t := by
  unfold definedKeys
  rw [show t.outline.columns = t.columns.map Column.outline from rfl, columnKeys_outline,
    show keysIn t.outline = keysIn t from funext (keysIn_outline t)]
  rfl

theorem tableNamed?_outline (tables : List Table) (name : String) :
    tableNamed? (tables.map Table.outline) name = (tableNamed? tables name).map Table.outline := by
  unfold tableNamed?
  rw [List.find?_map]
  rfl

theorem addedKeys_outline (tables : List Table) (name : String) (key : KeyDef) :
    addedKeys (tables.map Table.outline) name key = addedKeys tables name key := by
  unfold addedKeys
  rw [tableNamed?_outline]
  cases tableNamed? tables name with
  | none => rfl
  | some t =>
    dsimp only [Option.map_some]
    rw [keysIn_outline]
    rfl

theorem addedKeys_congr {tables tables' : List Table}
    (h : tables'.map Table.outline = tables.map Table.outline) (name : String) (key : KeyDef) :
    addedKeys tables' name key = addedKeys tables name key := by
  rw [← addedKeys_outline, h, addedKeys_outline]

/-- **Keys of a script** depend on the outlines of its tables only. -/
theorem statedKeys_outline (statements : List Statement) (tables : List Table) :
    statedKeys statements (tables.map Table.outline) = statedKeys statements tables := by
  unfold statedKeys
  rw [List.zip_map_right, List.flatMap_map]
  simp only [Prod.map_fst, Prod.map_snd, id, definedKeys_outline, addedKeys_outline]

theorem statedKeys_congr {tables tables' : List Table}
    (h : tables'.map Table.outline = tables.map Table.outline) (statements : List Statement) :
    statedKeys statements tables' = statedKeys statements tables := by
  rw [← statedKeys_outline, h, statedKeys_outline]

namespace Draft

/-! ## Tables -/

/-- **Columns** leave the keys waiting that they state, by the titles they get. -/
theorem foldl_addColumn_pending (prior : Prior) (definitions : List ColumnDef) (t : Table)
    (d : Draft) : ∃ columns,
      (definitions.foldl (addColumn prior) (t, d)).1 = { t with columns := t.columns ++ columns } ∧
        (definitions.foldl (addColumn prior) (t, d)).2.pending =
          d.pending ++ (columnKeys t.name definitions columns).map (·.at t.id) := by
  induction definitions generalizing t d with
  | nil => exact ⟨[], by simp, by simp [columnKeys]⟩
  | cons c cs ih =>
    obtain ⟨columns, htable, hpending⟩ :=
      ih (addColumn prior (t, d) c).1 (addColumn prior (t, d) c).2
    have hchosen := (chooseType_step prior d t.name c).pending
    let column := { columnOf (d.chooseType prior t.name c).1 c with title := t.freeTitle c.name }
    have hkey : (c.reference.map fun ref => (⟨t.name, t.freeTitle c.name, ref,
        ref.columns.headD "id"⟩ : NamedKey)).toList.map (·.at t.id) =
          (c.reference.map fun ref => (⟨t.id, t.freeTitle c.name, ref,
            ref.columns.headD "id"⟩ : PendingKey)).toList := by
      cases c.reference <;> rfl
    refine ⟨column :: columns, ?_, ?_⟩
    · rw [List.foldl_cons, htable, addColumn_eq, List.append_cons]
      rfl
    · rw [List.foldl_cons, hpending, addColumn_eq, columnKeys_cons, List.map_append, hkey,
        ← List.append_assoc]
      dsimp only
      rw [hchosen]
      rfl

/-- **A table of a new name** leaves the keys of its definition waiting. -/
theorem addTable_pending {prior : Prior} {d : Draft} {x : TableDef} {t : Table}
    (hid : d.tableId? x.name = none) (hs : AddStep prior x d (addTable prior d x) t)
    (hids : ((addTable prior d x).tables.map (·.id)).Nodup) :
    (addTable prior d x).pending = d.pending ++ definedKeys x t := by
  have htables := hs.tables
  have htid := hs.id
  have heq := addTable_eq prior hid
  rw [hs.realizes.name] at htid
  unfold columnsOf at heq
  dsimp only at heq
  rw [← htid] at heq
  generalize hempty : Table.mk t.id x.name [] _ _ = empty at heq
  generalize hplaced : Draft.mk _ d.enums d.tables _ _ _ _ = placed at heq
  obtain ⟨columns, htable, hwaiting⟩ := foldl_addColumn_pending prior x.columns empty placed
  have hstep := (foldl_addColumn_step prior x.columns empty placed).tables
  have hempty_ok : empty.Ok := by
    rw [← hempty]
    exact ⟨List.nodup_nil, fun _ hc => nomatch hc⟩
  have hok := ok_foldl_addColumn prior x.columns hempty_ok placed
  generalize x.columns.foldl (addColumn prior) (empty, placed) = r at *
  generalize hadded : appendTable x t.id r = added at heq
  obtain ⟨p, w, hqueue⟩ := foldl_queueStep (queueKey_step t.id x.name) x.foreignKeys added
  have hlast : t = applyConstraints x r.1 := by
    rw [heq, hqueue, ← hadded] at htables
    have hsingle : r.2.tables ++ [applyConstraints x r.1] = d.tables ++ [t] := htables
    rw [hstep, ← hplaced] at hsingle
    exact (List.singleton_inj.1 (List.append_cancel_left hsingle)).symm
  have hfound : tableById? added.tables t.id = some t := by
    have hm : t ∈ (addTable prior d x).tables := hs.tables ▸ List.mem_append_right _ (.head _)
    have hfound := tableById?_of_nodup hids hm
    rw [heq, hqueue] at hfound
    exact hfound
  -- Constraints that are set behind the columns leave their titles alone.
  have hcolumns : t.columns.map Column.outline = columns.map Column.outline := by
    have houtline := (outline_applyConstraints x hok).1
    rw [← hlast, htable, ← hempty] at houtline
    exact congrArg Table.columns houtline
  have hown : columnKeys t.name x.columns t.columns = columnKeys empty.name x.columns columns := by
    rw [← columnKeys_outline, hcolumns, columnKeys_outline, hs.realizes.name, ← hempty]
  have hpending : added.pending =
      d.pending ++ (columnKeys t.name x.columns t.columns).map (·.at t.id) := by
    rw [hown, ← hadded]
    refine Eq.trans hwaiting ?_
    rw [← hempty, ← hplaced]
  rw [heq, foldl_queueKey_eq x.foreignKeys hfound]
  unfold definedKeys
  rw [hpending, List.map_append, List.append_assoc]

/-- **Invariant of the tables**: just the keys of their definitions wait. -/
structure Waiting (previous : Option Graph) (definitions : List TableDef) (d : Draft) :
    Prop where
  complete : Complete previous definitions d
  pending : d.pending = (definitions.zip d.tables).flatMap fun x => definedKeys x.1 x.2

/-- **Definitions of tables** leave their keys waiting; the first one of a name counts. -/
theorem foldl_addTable_pending {previous : Option Graph}
    (distinct : ∀ g ∈ previous, (g.tables.map (·.id)).Nodup) (statements : List Statement)
    {seen : List String} {definitions : List TableDef} {d : Draft}
    (h : Waiting previous definitions d)
    (hseen : ∀ name, name ∈ seen ↔ name ∈ d.tables.map fun t => Text.lower t.name) :
    Waiting previous (definitions ++ (firstOfEach seen (namedDefinitions statements)).map (·.2))
      (statements.foldl (tablePhase (Prior.ofGraph? previous)) d) := by
  refine ⟨foldl_tablePhase statements h.complete hseen, ?_⟩
  induction statements generalizing seen definitions d with
  | nil => simpa [namedDefinitions, firstOfEach] using h.pending
  | cons s rest ih =>
    cases s with
    | createTable x =>
      show (rest.foldl (tablePhase (Prior.ofGraph? previous))
          (addTable (Prior.ofGraph? previous) d x)).pending =
        ((definitions ++ (firstOfEach seen ((Text.lower x.name, x) :: namedDefinitions rest)).map
          (·.2)).zip (rest.foldl (tablePhase (Prior.ofGraph? previous))
            (addTable (Prior.ofGraph? previous) d x)).tables).flatMap _
      unfold firstOfEach
      by_cases hm : Text.lower x.name ∈ seen
      · have hsome := fun hn => h.complete.named.tableId?_eq_none.1 hn ((hseen _).1 hm)
        obtain ⟨id, hid⟩ := Option.ne_none_iff_exists'.1 hsome
        have hwarn : addTable (Prior.ofGraph? previous) d x =
            d.warn (.duplicateTable x.name x.line) := by
          unfold addTable
          rw [hid]
        have hlate : LateStep d (d.warn (.duplicateTable x.name x.line)) :=
          ⟨rfl, fun h => h, rfl, rfl, rfl, rfl⟩
        rw [if_pos (by simpa using hm), hwarn]
        exact ih ⟨h.complete.lateStep hlate, h.pending⟩ hseen
      · have hnone := h.complete.named.tableId?_eq_none.2 (fun hn => hm ((hseen _).2 hn))
        obtain ⟨t, hs⟩ := addTable_step (Prior.ofGraph? previous) hnone
        have hcomplete := h.complete.addStep hs hnone
        have hpending := addTable_pending hnone hs (hcomplete.identified distinct).ids
        rw [if_neg (by simpa using hm), List.map_cons, List.append_cons]
        refine ih ⟨hcomplete, ?_⟩ fun name => ?_
        · rw [hpending, hs.tables, List.zip_append h.complete.realizes.length_eq,
            List.flatMap_append, ← h.pending]
          simp
        · rw [hs.tables, List.map_append, List.mem_append, List.mem_cons, hseen, List.map_cons,
            List.map_nil, List.mem_singleton, hs.realizes.name, or_comm]
    | _ => exact ih h hseen

/-! ## Later phases -/

theorem addIndex_pending (d : Draft) (table : String) (columns : List String) (unique : Bool) :
    (d.addIndex table columns unique).pending = d.pending := by
  unfold addIndex
  split
  · split <;> rfl
  · rfl

theorem foldl_indexPhase_pending (statements : List Statement) (d : Draft) :
    (statements.foldl indexPhase d).pending = d.pending := by
  induction statements generalizing d with
  | nil => rfl
  | cons s rest ih =>
    rw [List.foldl_cons, ih]
    cases s with
    | createIndex table columns unique => exact addIndex_pending d table columns unique
    | _ => rfl

/-- The table of a name and its id are those that the draft finds. -/
theorem tableId?_named {d : Draft} (hn : d.Named) (name : String) :
    d.tableId? name = (tableNamed? d.tables name).map (·.id) :=
  hn.tableId?_find name

/-- **A key that is added** waits in the table of that name, if there is one. -/
theorem keyPhase_pending {d : Draft} (hn : d.Named) (hids : (d.tables.map (·.id)).Nodup)
    (table : String) (key : KeyDef) :
    (keyPhase d (.alterForeignKey table key)).pending =
      d.pending ++ addedKeys d.tables table key := by
  unfold keyPhase addedKeys
  dsimp only
  rw [tableId?_named hn]
  cases hfind : tableNamed? d.tables table with
  | none => exact (List.append_nil _).symm
  | some t =>
    have hfound := tableById?_of_nodup hids (List.mem_of_find?_eq_some hfind)
    dsimp only [Option.map_some]
    rw [queueKey_eq hfound]

theorem foldl_keyPhase_pending (statements : List Statement) {d : Draft} (hn : d.Named)
    (hids : (d.tables.map (·.id)).Nodup) :
    (statements.foldl keyPhase d).pending =
      d.pending ++ (statements.filterMap altered?).flatMap fun x =>
        addedKeys d.tables x.1 x.2 := by
  induction statements generalizing d with
  | nil => exact (List.append_nil _).symm
  | cons s rest ih =>
    have hs := keyPhase_step d s
    have hnamed := hn.mono hs.outline hs.tableIds
    have hids' : ((keyPhase d s).tables.map (·.id)).Nodup := by
      rw [map_outline_congr (·.id) (fun _ => rfl) hs.outline]
      exact hids
    rw [List.foldl_cons, ih hnamed hids']
    simp only [addedKeys_congr hs.outline]
    cases s with
    | alterForeignKey table key =>
      rw [keyPhase_pending hn hids, List.append_assoc]
      rfl
    | _ => rfl

/-! ## All phases -/

/-- **Keys of a script**: after all phases, just those wait that the script states. -/
theorem pending_ofStatements {previous : Option Graph}
    (distinct : ∀ g ∈ previous, (g.tables.map (·.id)).Nodup) (statements : List Statement) :
    (ofStatements previous statements).pending =
      statedKeys statements (ofStatements previous statements).tables := by
  have henums := complete_enumPhase previous statements
  have hnone := (foldl_enumPhase_step (Prior.ofGraph? previous) statements
    { pool := IdPool.ofGraph? previous }).pending
  unfold ofStatements
  dsimp only
  generalize statements.foldl (enumPhase (Prior.ofGraph? previous))
    { pool := IdPool.ofGraph? previous } = d at *
  have hstart : Waiting previous [] d := ⟨henums, hnone⟩
  have htables := foldl_addTable_pending distinct statements hstart henums.mem_names_iff
  rw [List.nil_append] at htables
  generalize statements.foldl (tablePhase (Prior.ofGraph? previous)) d = d at *
  have hindexes := LateStep.foldl indexPhase_step statements d
  have hwaiting := foldl_indexPhase_pending statements d
  have hindexed := htables.complete.lateStep hindexes
  generalize statements.foldl indexPhase d = d' at *
  have hkeys := LateStep.foldl keyPhase_step statements d'
  rw [statedKeys_congr (hkeys.outline.trans hindexes.outline),
    foldl_keyPhase_pending statements hindexed.named (hindexed.identified distinct).ids, hwaiting,
    htables.pending]
  unfold statedKeys
  simp only [addedKeys_congr hindexes.outline]
  rfl

end Draft

end DdlGraph.Recovery
