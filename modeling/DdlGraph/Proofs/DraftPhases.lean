import DdlGraph.Proofs.FreshName
import DdlGraph.Proofs.TableUpdate

/-!
# What the columns of a draft keep

Declarations and columns only append. What is said of a column by its table, its title
and its type therefore stays true (`EnumUse.Holds.mono`), and a draft whose enumerations and uses
are right (`Draft.Sound`) is so after each statement.

* `EnumStep`: what a declaration or the choice of a type does to a draft;
* `sound_addColumn`, `ok_addColumn`: what a draft and its table keep with one column more;
* `foldl_addColumn_columns`: the columns are those of the definitions, in their order.
-/

namespace DdlGraph

/-- Names differ in more than case, and each enumeration has its values once. -/
structure EnumsOk (enums : List Enumeration) : Prop where
  names : (enums.map fun e => Text.foldAscii e.name).Nodup
  values : ∀ e ∈ enums, e.values.Nodup

theorem EnumsOk.append {enums : List Enumeration} {e : Enumeration} (h : EnumsOk enums)
    (hn : enumByName? enums e.name = none) (hv : e.values.Nodup) : EnumsOk (enums ++ [e]) := by
  constructor
  · rw [List.map_append, List.map_cons, List.map_nil, List.nodup_append]
    refine ⟨h.names, by simp, ?_⟩
    rintro a ha b hb rfl
    rw [List.mem_singleton] at hb
    exact enumByName?_eq_none_iff.1 hn (hb ▸ ha)
  · intro e' he'
    rcases List.mem_append.1 he' with he' | he'
    · exact h.values e' he'
    · rw [List.mem_singleton] at he'
      exact he' ▸ hv

/-- An enumeration that was found is found among more of them. -/
theorem enumByName?_of_prefix {enums enums' : List Enumeration} (h : enums <+: enums')
    {name : String} {e : Enumeration} (he : enumByName? enums name = some e) :
    enumByName? enums' name = some e := by
  obtain ⟨more, rfl⟩ := h
  unfold enumByName? at he ⊢
  rw [List.find?_append, he]
  rfl

namespace Recovery

open Sql

/-! ## Uses of enumerations -/

/-- The column is there, and its type names the enumeration. -/
def EnumUse.Holds (tables : List Table) (enums : List Enumeration) (u : EnumUse) : Prop :=
  ∃ e ∈ enums, e.id = u.enumId ∧ e.name = u.enumName ∧
    ∃ t ∈ tables, t.id = u.tableId ∧
      ∃ c ∈ t.columns, c.title = u.column ∧ c.enumName?.bind (enumByName? enums) = some e

/-- Each table stays, with columns of the same titles and types. -/
def Extends (tables tables' : List Table) : Prop :=
  ∀ t ∈ tables, ∃ t' ∈ tables', t'.id = t.id ∧
    ∀ c ∈ t.columns, ∃ c' ∈ t'.columns, c'.title = c.title ∧ c'.dataType = c.dataType

theorem Extends.of_subset {tables tables' : List Table} (h : tables ⊆ tables') :
    Extends tables tables' :=
  fun t ht => ⟨t, h ht, rfl, fun c hc => ⟨c, hc, rfl, rfl⟩⟩

/-- What keeps the outlines keeps titles and types. -/
theorem Extends.of_outline {tables tables' : List Table}
    (h : tables'.map Table.outline = tables.map Table.outline) : Extends tables tables' := by
  intro t ht
  obtain ⟨t', ht', ho⟩ := exists_mem_of_map_eq h ht
  have hid : t'.outline.id = t.outline.id := congrArg Table.id ho
  refine ⟨t', ht', hid, fun c hc => ?_⟩
  obtain ⟨c', hc', hco⟩ := exists_mem_of_map_eq (Table.columns_outline_eq ho) hc
  have htitle : c'.outline.title = c.outline.title := congrArg Column.title hco
  have htype : c'.outline.dataType = c.outline.dataType := congrArg Column.dataType hco
  exact ⟨c', hc', htitle, htype⟩

theorem enumName?_congr {c c' : Column} (h : c'.dataType = c.dataType) :
    c'.enumName? = c.enumName? := by
  unfold Column.enumName?
  rw [h]

theorem EnumUse.Holds.mono {tables tables' : List Table} {enums enums' : List Enumeration}
    {u : EnumUse} (h : u.Holds tables enums) (ht : Extends tables tables')
    (he : enums <+: enums') : u.Holds tables' enums' := by
  obtain ⟨e, hm, hid, hname, t, htm, htid, c, hc, htitle, hfound⟩ := h
  obtain ⟨t', htm', htid', hcols⟩ := ht t htm
  obtain ⟨c', hc', htitle', htype⟩ := hcols c hc
  refine ⟨e, he.subset hm, hid, hname, t', htm', htid'.trans htid, c', hc',
    htitle'.trans htitle, ?_⟩
  rw [enumName?_congr htype]
  obtain ⟨name, hn, hf⟩ := Option.bind_eq_some_iff.1 hfound
  exact Option.bind_eq_some_iff.2 ⟨name, hn, enumByName?_of_prefix he hf⟩

namespace Draft

/-! ## Enumerations and types -/

/-- **A step that appends enumerations.** Tables and what waits for them are left alone. -/
structure EnumStep (d d' : Draft) : Prop where
  tables : d'.tables = d.tables
  tableIds : d'.tableIds = d.tableIds
  pending : d'.pending = d.pending
  uses : d'.enumUses = d.enumUses
  enums : d.enums <+: d'.enums
  pool : d.pool.taken ⊆ d'.pool.taken
  ok : EnumsOk d.enums → EnumsOk d'.enums

theorem EnumStep.refl (d : Draft) : EnumStep d d :=
  ⟨rfl, rfl, rfl, rfl, List.prefix_rfl, List.Subset.refl _, id⟩

theorem EnumStep.trans {d₁ d₂ d₃ : Draft} (h₁ : EnumStep d₁ d₂) (h₂ : EnumStep d₂ d₃) :
    EnumStep d₁ d₃ :=
  ⟨h₂.tables.trans h₁.tables, h₂.tableIds.trans h₁.tableIds, h₂.pending.trans h₁.pending,
    h₂.uses.trans h₁.uses, h₁.enums.trans h₂.enums, fun _ hi => h₂.pool (h₁.pool hi),
    fun h => h₂.ok (h₁.ok h)⟩

theorem placeEnum_taken (prior : Prior) (pool : IdPool) (name : String) (index : Nat) :
    pool.taken ⊆ (placeEnum prior pool name index).2.taken := by
  unfold placeEnum
  split
  · exact List.Subset.refl _
  · exact List.subset_cons_self _ _

/-- Only the values grow. -/
theorem foldl_pushValue (values : List String) (e : Enumeration) :
    values.foldl Enumeration.pushValue e =
      { e with values := (values.foldl Enumeration.pushValue e).values } := by
  induction values generalizing e with
  | nil => rfl
  | cons value values ih =>
    rw [List.foldl_cons, ih]
    unfold Enumeration.pushValue
    split <;> rfl

theorem foldl_pushValue_name (values : List String) (e : Enumeration) :
    (values.foldl Enumeration.pushValue e).name = e.name := by
  rw [foldl_pushValue]

theorem foldl_pushValue_append {values : List String} {e : Enumeration}
    (h : (e.values ++ values).Nodup) :
    values.foldl Enumeration.pushValue e = { e with values := e.values ++ values } := by
  induction values generalizing e with
  | nil => rw [List.append_nil]; rfl
  | cons v vs ih =>
    have hv : v ∉ e.values := fun hm => (List.nodup_append.1 h).2.2 v hm v (.head _) rfl
    have hpush : e.pushValue v = { e with values := e.values ++ [v] } := if_neg hv
    rw [List.append_cons] at h
    rw [List.foldl_cons, hpush, ih h]
    dsimp only
    rw [List.append_assoc]
    rfl

theorem addEnum_step {d : Draft} (prior : Prior) {name : String} (values : List String)
    (h : enumByName? d.enums name = none) : EnumStep d (d.addEnum prior name values).2 where
  tables := rfl
  tableIds := rfl
  pending := rfl
  uses := rfl
  enums := List.prefix_append _ _
  pool := placeEnum_taken prior d.pool name d.enums.length
  ok hd := by
    refine hd.append ?_ (addEnum_values_nodup d prior name values)
    rw [foldl_pushValue_name]
    exact h

theorem declareEnum_step (prior : Prior) (d : Draft) (name : String) (values : List String) :
    EnumStep d (declareEnum prior d name values) := by
  unfold declareEnum
  split
  · exact { EnumStep.refl d with }
  · rename_i h
    exact addEnum_step prior values h

theorem foldl_enumPhase_step (prior : Prior) (statements : List Statement) (d : Draft) :
    EnumStep d (statements.foldl (enumPhase prior) d) := by
  induction statements generalizing d with
  | nil => exact .refl d
  | cons s rest ih =>
    refine EnumStep.trans ?_ (ih _)
    cases s with
    | createType name values => exact declareEnum_step prior d name values
    | _ => exact .refl d

/-- What the enumeration for listed values is: one that the draft has, or a new one. -/
theorem inlineEnum_cases (prior : Prior) (d : Draft) (table column : String)
    (values : List String) :
    (∃ e, d.enums.find? (·.values = values) = some e ∧
        d.inlineEnum prior table column values = (e, d)) ∨
      (d.enums.find? (·.values = values) = none ∧ ∃ name, enumByName? d.enums name = none ∧
        d.inlineEnum prior table column values = d.addEnum prior name values) := by
  unfold inlineEnum
  cases hfind : d.enums.find? (·.values = values) with
  | some e => exact .inl ⟨e, rfl, rfl⟩
  | none =>
    refine .inr ⟨rfl, ?_⟩
    dsimp only
    split
    · rename_i e he
      obtain ⟨-, hfree⟩ := Option.filter_eq_some_iff.1 he
      exact ⟨e.name, Option.isNone_iff_eq_none.1 hfree, rfl⟩
    · exact ⟨_, d.columnEnumName_free table column, rfl⟩

/-- An enumeration that is added stands at its place under its name. -/
theorem addEnum_eq (prior : Prior) (d : Draft) (name : String) (values : List String) :
    (d.addEnum prior name values).1 =
      { id := (placeEnum prior d.pool name d.enums.length).1.id
        name
        values := (d.addEnum prior name values).1.values
        position := (placeEnum prior d.pool name d.enums.length).1.position } :=
  foldl_pushValue _ _

theorem addEnum_values {prior : Prior} {d : Draft} {name : String} {values : List String}
    (hv : values.Nodup) : (d.addEnum prior name values).1.values = values := by
  let place := (placeEnum prior d.pool name d.enums.length).1
  have hpush := foldl_pushValue_append
    (e := { id := place.id, name, values := [], position := place.position }) hv
  exact congrArg Enumeration.values hpush

theorem inlineEnum_step (prior : Prior) (d : Draft) (table column : String)
    (values : List String) : EnumStep d (d.inlineEnum prior table column values).2 := by
  rcases inlineEnum_cases prior d table column values with ⟨e, -, he⟩ | ⟨-, name, hfree, he⟩
  · rw [he]
    exact .refl d
  · rw [he]
    exact addEnum_step prior values hfree

theorem chooseType_step (prior : Prior) (d : Draft) (table : String) (c : ColumnDef) :
    EnumStep d (d.chooseType prior table c).2 := by
  unfold chooseType
  split
  · exact inlineEnum_step prior d table c.name _
  · split
    · exact .refl d
    · exact .refl d

/-! ## Columns -/

/-- **Sound draft**: its enumerations are well-formed, and the uses of them hold of `tables`. -/
structure Sound (tables : List Table) (d : Draft) : Prop where
  enums : EnumsOk d.enums
  uses : ∀ u ∈ d.enumUses, u.Holds tables d.enums

theorem Sound.mono {tables tables' : List Table} {d d' : Draft} (h : Sound tables d)
    (ht : Extends tables tables') (he : d'.enums = d.enums) (hu : d'.enumUses = d.enumUses) :
    Sound tables' d' := by
  refine ⟨he ▸ h.enums, fun u hm => ?_⟩
  rw [hu] at hm
  exact (h.uses u hm).mono ht (he ▸ List.prefix_rfl)

theorem Sound.enumStep {tables : List Table} {d d' : Draft} (h : Sound tables d)
    (hs : EnumStep d d') : Sound tables d' := by
  refine ⟨hs.ok h.enums, fun u hm => ?_⟩
  rw [hs.uses] at hm
  exact (h.uses u hm).mono (.of_subset (List.Subset.refl _)) hs.enums

/-- What `addColumn` does, with the type it chooses. -/
theorem addColumn_eq (prior : Prior) (t : Table) (d : Draft) (c : ColumnDef) :
    addColumn prior (t, d) c =
      let type := d.chooseType prior t.name c
      let column := columnOf type.1 c
      (t.addColumn column,
        { type.2 with
          enumUses := type.2.enumUses ++
            ((column.enumName?.bind (enumByName? type.2.enums)).map fun e =>
              ⟨e.id, e.name, t.id, t.freeTitle c.name⟩).toList
          pending := type.2.pending ++
            (c.reference.map fun ref =>
              ⟨t.id, t.freeTitle c.name, ref, ref.columns.headD "id"⟩).toList }) := by
  unfold addColumn
  dsimp only [columnOf]
  congr 2
  · congr 1
    split <;> rename_i he <;> rw [he] <;> rfl
  · congr 1
    split <;> rename_i he <;> rw [he] <;> rfl

/-- What a column leaves alone in the draft. -/
structure TableStep (d d' : Draft) : Prop where
  tables : d'.tables = d.tables
  tableIds : d'.tableIds = d.tableIds
  pool : d.pool.taken ⊆ d'.pool.taken

theorem addColumn_step (prior : Prior) (t : Table) (d : Draft) (c : ColumnDef) :
    TableStep d (addColumn prior (t, d) c).2 := by
  have hs := chooseType_step prior d t.name c
  rw [addColumn_eq]
  exact ⟨hs.tables, hs.tableIds, hs.pool⟩

theorem extends_addColumn (tables : List Table) (t : Table) (column : Column) :
    Extends (tables ++ [t]) (tables ++ [t.addColumn column]) := by
  intro s hs
  rcases List.mem_append.1 hs with hs | hs
  · exact ⟨s, List.mem_append_left _ hs, rfl, fun c hc => ⟨c, hc, rfl, rfl⟩⟩
  · obtain rfl := List.mem_singleton.1 hs
    refine ⟨s.addColumn column, List.mem_append_right _ (.head _), rfl, fun c hc => ?_⟩
    exact ⟨c, List.mem_append_left _ hc, rfl, rfl⟩

theorem sound_addColumn {tables : List Table} {t : Table} {d : Draft}
    (h : Sound (tables ++ [t]) d) (prior : Prior) (c : ColumnDef) :
    Sound (tables ++ [(addColumn prior (t, d) c).1]) (addColumn prior (t, d) c).2 := by
  have hs := h.enumStep (chooseType_step prior d t.name c)
  rw [addColumn_eq]
  refine ⟨hs.enums, fun u hm => ?_⟩
  rcases List.mem_append.1 hm with hm | hm
  · exact (hs.uses u hm).mono (extends_addColumn tables t _) List.prefix_rfl
  · rw [Option.mem_toList] at hm
    obtain ⟨e, he, rfl⟩ := Option.map_eq_some_iff.1 hm
    obtain ⟨name, -, hf⟩ := Option.bind_eq_some_iff.1 he
    refine ⟨e, List.mem_of_find?_eq_some hf, rfl, rfl, _, List.mem_append_right _ (.head _), rfl,
      _, List.mem_append_right _ (.head _), rfl, he⟩

/-! ## Tables -/

theorem foldl_addColumn_step (prior : Prior) (definitions : List ColumnDef) (t : Table)
    (d : Draft) : TableStep d (definitions.foldl (addColumn prior) (t, d)).2 := by
  induction definitions generalizing t d with
  | nil => exact ⟨rfl, rfl, List.Subset.refl _⟩
  | cons c cs ih =>
    have h₁ := addColumn_step prior t d c
    have h₂ := ih (addColumn prior (t, d) c).1 (addColumn prior (t, d) c).2
    exact ⟨h₂.tables.trans h₁.tables, h₂.tableIds.trans h₁.tableIds,
      fun _ hi => h₂.pool (h₁.pool hi)⟩

theorem sound_foldl_addColumn (prior : Prior) (definitions : List ColumnDef) {tables : List Table}
    {t : Table} {d : Draft} (h : Sound (tables ++ [t]) d) :
    Sound (tables ++ [(definitions.foldl (addColumn prior) (t, d)).1])
      (definitions.foldl (addColumn prior) (t, d)).2 := by
  induction definitions generalizing t d with
  | nil => exact h
  | cons c cs ih => exact ih (sound_addColumn h prior c)

theorem constraintsOf_nodup (serial : Bool) (c : ColumnDef) : (constraintsOf serial c).Nodup := by
  unfold constraintsOf
  cases serial || c.primary <;> cases c.unique <;> cases c.notNull <;> decide

theorem ok_addColumn (prior : Prior) {t : Table} (ht : t.Ok) (d : Draft) (c : ColumnDef) :
    (addColumn prior (t, d) c).1.Ok := by
  rw [addColumn_eq]
  constructor
  · simp only [Table.foldedTitles, Table.addColumn, List.map_append, List.map_cons, List.map_nil]
    rw [List.nodup_append]
    refine ⟨ht.titles, by simp, ?_⟩
    rintro a ha b hb rfl
    rw [List.mem_singleton] at hb
    exact t.freeTitle_not_mem c.name (hb ▸ ha)
  · intro c' hc'
    rcases List.mem_append.1 hc' with hc' | hc'
    · exact ht.constraints c' hc'
    · rw [List.mem_singleton] at hc'
      exact hc' ▸ constraintsOf_nodup _ c

theorem ok_foldl_addColumn (prior : Prior) (definitions : List ColumnDef) {t : Table} (ht : t.Ok)
    (d : Draft) : (definitions.foldl (addColumn prior) (t, d)).1.Ok := by
  induction definitions generalizing t d with
  | nil => exact ht
  | cons c cs ih => exact ih (ok_addColumn prior ht d c) _

end Draft

/-- **Column of a definition**: it has its title, perhaps with a number, and its default. -/
structure Realizes (definition : ColumnDef) (c : Column) : Prop where
  title : c.title = definition.name ∨ ∃ n ≥ 2, c.title = definition.name ++ "_" ++ toString n
  default : c.defaultValue = definition.defaultValue

/-- **Table of a definition**: it has its name, and one column for each of its columns. -/
structure RealizesTable (definition : TableDef) (t : Table) : Prop where
  name : t.name = definition.name
  columns : List.Forall₂ Realizes definition.columns t.columns

theorem Realizes.outline_iff {definition : ColumnDef} {c : Column} :
    Realizes definition c.outline ↔ Realizes definition c :=
  ⟨fun h => ⟨h.title, h.default⟩, fun h => ⟨h.title, h.default⟩⟩

theorem RealizesTable.outline_iff {definition : TableDef} {t : Table} :
    RealizesTable definition t.outline ↔ RealizesTable definition t := by
  have columns : List.Forall₂ Realizes definition.columns t.outline.columns ↔
      List.Forall₂ Realizes definition.columns t.columns := by
    simp only [Table.outline, List.forall₂_map_right_iff, Realizes.outline_iff]
  exact ⟨fun h => ⟨h.name, columns.1 h.columns⟩, fun h => ⟨h.name, columns.2 h.columns⟩⟩

theorem RealizesTable.of_outline {definition : TableDef} {t t' : Table}
    (h : RealizesTable definition t) (ho : t'.outline = t.outline) :
    RealizesTable definition t' := by
  rw [← outline_iff, ho, outline_iff]
  exact h

namespace Draft

theorem leastFree_ge (count : Nat) (free : Nat → Bool) : 2 ≤ leastFree count free := by
  unfold leastFree
  cases hf : (List.range' 2 (count + 1)).find? free with
  | none => exact Nat.le_refl 2
  | some n =>
    have hn := List.mem_range'_1.1 (List.mem_of_find?_eq_some hf)
    exact hn.1

theorem foldl_addColumn_columns (prior : Prior) (definitions : List ColumnDef) (t : Table)
    (d : Draft) : ∃ columns, List.Forall₂ Realizes definitions columns ∧
      (definitions.foldl (addColumn prior) (t, d)).1 =
        { t with columns := t.columns ++ columns } := by
  induction definitions generalizing t d with
  | nil => exact ⟨[], .nil, by simp⟩
  | cons c cs ih =>
    obtain ⟨columns, hr, he⟩ := ih (addColumn prior (t, d) c).1 (addColumn prior (t, d) c).2
    let column := columnOf (d.chooseType prior t.name c).1 c
    rw [List.foldl_cons, he, addColumn_eq]
    refine ⟨{ column with title := t.freeTitle c.name } :: columns, .cons ⟨?_, rfl⟩ hr, ?_⟩
    · rw [t.freeTitle_eq]
      unfold freeName
      split
      · exact .inr ⟨_, leastFree_ge _ _, rfl⟩
      · exact .inl rfl
    · simp only [Table.addColumn, List.append_assoc, List.singleton_append]
      rfl

end Draft

end Recovery

end DdlGraph
