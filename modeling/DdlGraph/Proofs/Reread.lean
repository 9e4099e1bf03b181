import DdlGraph.Proofs.ColumnMap
import DdlGraph.Proofs.WellFormed

/-!
# A text that is read again

A text that is read again, with its own graph as the graph before, gives that graph. The second
reading takes other branches: tables and enumerations are found by their names and not allocated,
and an enumeration for listed values is the one of the graph with these values. Each step of it
does what the same step of the first one did, only the ids in use are others (`Draft.withPool`).

* `Draft.Grows`: enumerations that columns add have values that none before them has, so the graph
  has one enumeration for listed values at most;
* `inlineEnum_again`, `foldl_addColumn_again`, `addTable_again`: the same step, if what the first
  reading makes is in the graph;
* `ofStatements_again`: all phases;
* `reconcileEdges_again`: edges with styles from themselves;
* `recover_again`: the outcome is the same.
-/

namespace DdlGraph

namespace Recovery

open Sql

/-- The lists of values in the columns of a statement. -/
def listedIn : Statement → List (List String)
  | .createTable definition => definition.columns.filterMap (·.inlineValues)
  | _ => []

/-- **No list of values in a column has a value twice.** -/
def DistinctValues (statements : List Statement) : Prop :=
  ∀ s ∈ statements, ∀ values ∈ listedIn s, values.Nodup

instance (statements : List Statement) : Decidable (DistinctValues statements) :=
  inferInstanceAs (Decidable (∀ s ∈ statements, ∀ values ∈ listedIn s, values.Nodup))

namespace Draft

/-- The draft with other ids in use. -/
def withPool (d : Draft) (pool : IdPool) : Draft :=
  { d with pool }

/-- Steps that do not look at the ids in use. -/
theorem foldl_withPool {α : Type} {f : Draft → α → Draft} {pool : IdPool}
    (h : ∀ d a, f (d.withPool pool) a = (f d a).withPool pool) (as : List α) (d : Draft) :
    as.foldl f (d.withPool pool) = (as.foldl f d).withPool pool :=
  List.foldl_hom (fun d : Draft => d.withPool pool) h

/-! ## Enumerations -/

/-- **Growth by values**: the enumerations that are added have values that none before them has. -/
def Grows (enums enums' : List Enumeration) : Prop :=
  ∃ more, enums' = enums ++ more ∧ (more.map (·.values)).Nodup ∧
    (enums.map (·.values)).Disjoint (more.map (·.values))

theorem Grows.refl (enums : List Enumeration) : Grows enums enums :=
  ⟨[], by simp, List.nodup_nil, by simp⟩

theorem Grows.trans {enums₁ enums₂ enums₃ : List Enumeration} (h₁ : Grows enums₁ enums₂)
    (h₂ : Grows enums₂ enums₃) : Grows enums₁ enums₃ := by
  obtain ⟨more₁, rfl, hn₁, hd₁⟩ := h₁
  obtain ⟨more₂, rfl, hn₂, hd₂⟩ := h₂
  rw [List.map_append, List.disjoint_append_left] at hd₂
  refine ⟨more₁ ++ more₂, List.append_assoc _ _ _, ?_, ?_⟩
  · rw [List.map_append]
    exact hn₁.append hn₂ hd₂.2
  · rw [List.map_append, List.disjoint_append_right]
    exact ⟨hd₁, hd₂.1⟩

theorem Grows.subset {enums enums' : List Enumeration} (h : Grows enums enums') :
    enums ⊆ enums' := by
  obtain ⟨more, rfl, -, -⟩ := h
  exact List.subset_append_left _ _

theorem inlineEnum_grows (prior : Prior) (d : Draft) (table column : String)
    {values : List String} (hv : values.Nodup) :
    Grows d.enums (d.inlineEnum prior table column values).2.enums := by
  rcases inlineEnum_cases prior d table column values with ⟨e, -, he⟩ | ⟨hnone, name, -, he⟩
  · rw [he]
    exact .refl _
  · rw [he]
    refine ⟨[(d.addEnum prior name values).1], rfl, List.nodup_singleton _, ?_⟩
    rw [List.map_singleton, addEnum_values hv, List.disjoint_singleton]
    intro hm
    obtain ⟨e, he, hvalues⟩ := List.mem_map.1 hm
    exact List.find?_eq_none.1 hnone e he (decide_eq_true hvalues)

/-- Only the enumeration that was added for listed values has them, however many follow. -/
theorem filter_values_of_grows {prior : Prior} {d : Draft} {name : String} {values : List String}
    (hv : values.Nodup) (hnone : d.enums.find? (·.values = values) = none)
    {enums : List Enumeration} (h : Grows (d.addEnum prior name values).2.enums enums) :
    enums.filter (·.values = values) = [(d.addEnum prior name values).1] := by
  obtain ⟨more, rfl, -, hdisjoint⟩ := h
  have hadded : (d.addEnum prior name values).2.enums =
      d.enums ++ [(d.addEnum prior name values).1] := rfl
  have hvalues : (d.addEnum prior name values).1.values = values := addEnum_values hv
  rw [hadded] at hdisjoint ⊢
  have hbefore : d.enums.filter (·.values = values) = [] :=
    List.filter_eq_nil_iff.2 (List.find?_eq_none.1 hnone)
  have hmore : more.filter (·.values = values) = [] := by
    refine List.filter_eq_nil_iff.2 fun e he hval => ?_
    refine hdisjoint ?_ (List.mem_map_of_mem he)
    rw [of_decide_eq_true hval]
    exact List.mem_map.2 ⟨_, List.mem_append_right _ (.head _), hvalues⟩
  rw [List.filter_append, List.filter_append, hbefore, hmore, List.append_nil, List.nil_append,
    List.filter_cons, if_pos (decide_eq_true hvalues), List.filter_nil]

section
variable {g : Graph} (hn : (g.enums.map fun e => Text.lower e.name).Nodup) (pool : IdPool)
include hn

/-- **An enumeration is added again** as it was, if it is in the graph. -/
theorem addEnum_again {prior : Prior} {d : Draft} {name : String} {values : List String}
    (h : (d.addEnum prior name values).1 ∈ g.enums) :
    (d.withPool pool).addEnum (Prior.ofGraph g) name values =
      ((d.addEnum prior name values).1, (d.addEnum prior name values).2.withPool pool) := by
  have hplace : ∀ e, (Prior.ofGraph g).enum? name = some e →
      placeEnum (Prior.ofGraph g) pool name d.enums.length = (⟨e.id, e.position, none⟩, pool) := by
    intro e he
    unfold placeEnum
    rw [he]
  have hprior := Prior.enum?_ofGraph hn h
  rw [addEnum_eq] at hprior
  unfold addEnum withPool
  dsimp only
  rw [hplace _ hprior]

theorem declareEnum_again {prior : Prior} {d : Draft} {name : String} {values : List String}
    (h : (declareEnum prior d name values).enums ⊆ g.enums) :
    declareEnum (Prior.ofGraph g) (d.withPool pool) name values =
      (declareEnum prior d name values).withPool pool := by
  have henums : (d.withPool pool).enums = d.enums := rfl
  unfold declareEnum at h ⊢
  rw [henums]
  cases hfind : enumByName? d.enums name with
  | some e => rfl
  | none =>
    rw [hfind] at h
    have hmem : (d.addEnum prior name values).1 ∈ g.enums :=
      h (List.mem_append_right _ (.head _))
    dsimp only
    rw [addEnum_again hn pool hmem]

/-- The enumeration that the first reading added for listed values is the one of the graph with
these values, so the second reading takes its name. -/
theorem inlineEnum_again {prior : Prior} {d : Draft} {table column : String}
    {values : List String} (hv : values.Nodup)
    (h : Grows (d.inlineEnum prior table column values).2.enums g.enums) :
    (d.withPool pool).inlineEnum (Prior.ofGraph g) table column values =
      ((d.inlineEnum prior table column values).1,
        (d.inlineEnum prior table column values).2.withPool pool) := by
  have henums : (d.withPool pool).enums = d.enums := rfl
  rcases inlineEnum_cases prior d table column values with ⟨e, hfind, he⟩ | ⟨hnone, name, hfree, he⟩
  · rw [he]
    unfold inlineEnum
    rw [henums, hfind]
  · rw [he] at h ⊢
    have hmem : (d.addEnum prior name values).1 ∈ g.enums :=
      h.subset (List.mem_append_right _ (.head _))
    have hname : (d.addEnum prior name values).1.name = name := foldl_pushValue_name _ _
    have hprior : (Prior.ofGraph g).enumWithValues? values =
        some (d.addEnum prior name values).1 := by
      rw [Prior.enumWithValues?_ofGraph hn, filter_values_of_grows hv hnone h]
      rfl
    have hkeep : ((Prior.ofGraph g).enumWithValues? values).filter
        (fun e => (enumByName? d.enums e.name).isNone) =
          some (d.addEnum prior name values).1 := by
      rw [hprior, Option.filter_some, hname, hfree]
      rfl
    have hagain : (d.withPool pool).inlineEnum (Prior.ofGraph g) table column values =
        (d.withPool pool).addEnum (Prior.ofGraph g) name values := by
      unfold inlineEnum
      rw [henums, hnone, hkeep]
      dsimp only
      rw [hname]
    rw [hagain, addEnum_again hn pool hmem]

end

/-! ## Columns -/

/-- No list of values in the columns of a table has a value twice. -/
def DistinctLists (definitions : List ColumnDef) : Prop :=
  ∀ c ∈ definitions, ∀ values ∈ c.inlineValues, values.Nodup

theorem chooseType_grows (prior : Prior) (d : Draft) (table : String) {c : ColumnDef}
    (hv : ∀ values ∈ c.inlineValues, values.Nodup) :
    Grows d.enums (d.chooseType prior table c).2.enums := by
  unfold chooseType
  split
  · rename_i values hvalues
    exact inlineEnum_grows prior d table c.name (hv values hvalues)
  · split
    · exact .refl _
    · exact .refl _

theorem addColumn_grows (prior : Prior) (t : Table) (d : Draft) {c : ColumnDef}
    (hv : ∀ values ∈ c.inlineValues, values.Nodup) :
    Grows d.enums (addColumn prior (t, d) c).2.enums := by
  rw [addColumn_eq]
  exact chooseType_grows prior d t.name hv

theorem foldl_addColumn_grows (prior : Prior) {definitions : List ColumnDef}
    (hv : DistinctLists definitions) (t : Table) (d : Draft) :
    Grows d.enums (definitions.foldl (addColumn prior) (t, d)).2.enums := by
  induction definitions generalizing t d with
  | nil => exact .refl _
  | cons c cs ih =>
    have hstep := addColumn_grows prior t d (hv c (.head _))
    have hrest := ih (fun c' hc' => hv c' (.tail _ hc')) (addColumn prior (t, d) c).1
      (addColumn prior (t, d) c).2
    exact hstep.trans hrest

section
variable {g : Graph} (hn : (g.enums.map fun e => Text.lower e.name).Nodup) (pool : IdPool)
include hn

theorem chooseType_again {prior : Prior} {d : Draft} {table : String} {c : ColumnDef}
    (hv : ∀ values ∈ c.inlineValues, values.Nodup)
    (h : Grows (d.chooseType prior table c).2.enums g.enums) :
    (d.withPool pool).chooseType (Prior.ofGraph g) table c =
      ((d.chooseType prior table c).1, (d.chooseType prior table c).2.withPool pool) := by
  have hknown : (d.withPool pool).knownEnum? c.typeName = d.knownEnum? c.typeName := rfl
  unfold chooseType at h ⊢
  cases hvalues : c.inlineValues with
  | some values =>
    rw [hvalues] at h
    dsimp only at h ⊢
    rw [inlineEnum_again hn pool (hv values hvalues) h]
  | none =>
    dsimp only
    rw [hknown]
    cases d.knownEnum? c.typeName with
    | some e => rfl
    | none => rfl

theorem addColumn_again {prior : Prior} {t : Table} {d : Draft} {c : ColumnDef}
    (hv : ∀ values ∈ c.inlineValues, values.Nodup)
    (h : Grows (addColumn prior (t, d) c).2.enums g.enums) :
    addColumn (Prior.ofGraph g) (t, d.withPool pool) c =
      ((addColumn prior (t, d) c).1, (addColumn prior (t, d) c).2.withPool pool) := by
  rw [addColumn_eq] at h
  rw [addColumn_eq, addColumn_eq, chooseType_again hn pool hv h]
  rfl

/-- **The columns of a table are added again**, each with the type that it got before. -/
theorem foldl_addColumn_again {prior : Prior} {definitions : List ColumnDef}
    (hv : DistinctLists definitions) {t : Table} {d : Draft}
    (h : Grows (definitions.foldl (addColumn prior) (t, d)).2.enums g.enums) :
    definitions.foldl (addColumn (Prior.ofGraph g)) (t, d.withPool pool) =
      ((definitions.foldl (addColumn prior) (t, d)).1,
        (definitions.foldl (addColumn prior) (t, d)).2.withPool pool) := by
  induction definitions generalizing t d with
  | nil => rfl
  | cons c cs ih =>
    have hrest : DistinctLists cs := fun c' hc' => hv c' (.tail _ hc')
    have hgrows := foldl_addColumn_grows prior hrest (addColumn prior (t, d) c).1
      (addColumn prior (t, d) c).2
    rw [List.foldl_cons, addColumn_again hn pool (hv c (.head _)) (hgrows.trans h)]
    exact ih hrest h

end

/-! ## Tables -/

/-- **The draft leads to the graph**: the graph has its tables first, with later constraints
perhaps, and its enumerations, with those of later columns. -/
structure LeadsTo (g : Graph) (d : Draft) : Prop where
  tables : d.tables.map Table.outline <+: g.tables.map Table.outline
  enums : Grows d.enums g.enums

theorem queueKey_withPool (id name : String) (d : Draft) (pool : IdPool) (key : KeyDef) :
    queueKey id name (d.withPool pool) key = (queueKey id name d key).withPool pool := by
  unfold queueKey
  refine foldl_withPool (fun d column => ?_) _ d
  have htable : tableById? (d.withPool pool).tables id = tableById? d.tables id := rfl
  dsimp only
  rw [htable]
  split <;> rfl

theorem enums_addTable {prior : Prior} {d : Draft} {definition : TableDef}
    (h : d.tableId? definition.name = none) :
    (addTable prior d definition).enums = (columnsOf prior d definition).2.enums := by
  have hkeys : ∀ (id name : String) (d : Draft),
      (definition.foreignKeys.foldl (queueKey id name) d).enums = d.enums := by
    intro id name d
    obtain ⟨p, w, he⟩ := foldl_queueStep (queueKey_step id name) definition.foreignKeys d
    rw [he]
  rw [addTable_eq prior h]
  exact hkeys _ _ _

theorem LeadsTo.of_addTable {prior : Prior} {g : Graph} {d : Draft} {definition : TableDef}
    (hv : DistinctLists definition.columns) (h : LeadsTo g (addTable prior d definition)) :
    LeadsTo g d := by
  cases hfind : d.tableId? definition.name with
  | some id =>
    have hwarn : addTable prior d definition =
        d.warn (.duplicateTable definition.name definition.line) := by
      unfold addTable
      rw [hfind]
    rw [hwarn] at h
    exact ⟨h.tables, h.enums⟩
  | none =>
    obtain ⟨t, hs⟩ := addTable_step prior hfind
    constructor
    · have htables := h.tables
      rw [hs.tables, List.map_append] at htables
      exact (List.prefix_append _ _).trans htables
    · have hcolumns : Grows d.enums (columnsOf prior d definition).2.enums :=
        foldl_addColumn_grows prior hv _ _
      exact hcolumns.trans (enums_addTable hfind ▸ h.enums)

/-- **A table is added again** under the same id, at the same place. -/
theorem addTable_again {prior : Prior} {g : Graph}
    (hn : (g.enums.map fun e => Text.lower e.name).Nodup)
    (ht : (g.tables.map fun t => Text.lower t.name).Nodup) (pool : IdPool) {d : Draft}
    {definition : TableDef} (hv : DistinctLists definition.columns)
    (h : LeadsTo g (addTable prior d definition)) :
    addTable (Prior.ofGraph g) (d.withPool pool) definition =
      (addTable prior d definition).withPool pool := by
  have hid : (d.withPool pool).tableId? definition.name = d.tableId? definition.name := rfl
  cases hfind : d.tableId? definition.name with
  | some id =>
    unfold addTable
    rw [hid, hfind]
    rfl
  | none =>
    obtain ⟨t, hs⟩ := addTable_step prior hfind
    have hplace : placeTable (Prior.ofGraph g) pool definition.name d.tables.length =
        ((placeTable prior d.pool definition.name d.tables.length).1, pool) := by
      have hmem : t.outline ∈ g.tables.map Table.outline := by
        refine h.tables.subset ?_
        rw [hs.tables]
        exact List.mem_map_of_mem (List.mem_append_right _ (.head _))
      obtain ⟨t', ht', ho⟩ := List.mem_map.1 hmem
      have hname : t'.outline.name = t.outline.name := congrArg Table.name ho
      have hsame : t'.outline.placement = t.outline.placement := congrArg Table.placement ho
      have hprior : (Prior.ofGraph g).table? definition.name = some t' := by
        have hfound := Prior.table?_ofGraph ht ht'
        rw [← hs.realizes.name]
        exact hname ▸ hfound
      have hbefore : t'.placement = (placeTable prior d.pool t.name d.tables.length).1 :=
        hsame.trans hs.place
      rw [← hs.realizes.name, ← hbefore, hs.realizes.name]
      unfold placeTable
      rw [hprior]
      rfl
    have hcolumns : columnsOf (Prior.ofGraph g) (d.withPool pool) definition =
        ((columnsOf prior d definition).1, (columnsOf prior d definition).2.withPool pool) := by
      have hagain := foldl_addColumn_again hn pool hv (enums_addTable hfind ▸ h.enums)
      unfold columnsOf
      dsimp only [withPool] at hplace ⊢
      rw [hplace]
      exact hagain
    have hplace' : placeTable (Prior.ofGraph g) (d.withPool pool).pool definition.name
        (d.withPool pool).tables.length = _ := hplace
    rw [addTable_eq prior hfind, addTable_eq (Prior.ofGraph g) (hid.trans hfind), hcolumns,
      hplace']
    exact foldl_withPool (fun d key => queueKey_withPool _ _ d pool key) definition.foreignKeys
      (appendTable definition _ (columnsOf prior d definition))

/-! ## All phases -/

theorem distinctLists_of_mem {statements : List Statement} (hv : DistinctValues statements)
    {definition : TableDef} (hm : .createTable definition ∈ statements) :
    DistinctLists definition.columns :=
  fun c hc values hvalues => hv _ hm values (List.mem_filterMap.2 ⟨c, hc, hvalues⟩)

theorem foldl_enumPhase_again {prior : Prior} {g : Graph}
    (hn : (g.enums.map fun e => Text.lower e.name).Nodup) (pool : IdPool)
    (statements : List Statement) {d : Draft}
    (h : (statements.foldl (enumPhase prior) d).enums ⊆ g.enums) :
    statements.foldl (enumPhase (Prior.ofGraph g)) (d.withPool pool) =
      (statements.foldl (enumPhase prior) d).withPool pool := by
  induction statements generalizing d with
  | nil => rfl
  | cons s rest ih =>
    have hstep : enumPhase (Prior.ofGraph g) (d.withPool pool) s =
        (enumPhase prior d s).withPool pool := by
      cases s with
      | createType name values =>
        have hrest := (foldl_enumPhase_step prior rest (declareEnum prior d name values)).enums
        exact declareEnum_again hn pool fun e he => h (hrest.subset he)
      | _ => rfl
    rw [List.foldl_cons, hstep]
    exact ih h

theorem LeadsTo.of_tablePhase {prior : Prior} {g : Graph} {statements : List Statement}
    (hv : DistinctValues statements) {d : Draft}
    (h : LeadsTo g (statements.foldl (tablePhase prior) d)) : LeadsTo g d := by
  induction statements generalizing d with
  | nil => exact h
  | cons s rest ih =>
    have hrest : LeadsTo g (tablePhase prior d s) := ih (fun s' hs' => hv s' (.tail _ hs')) h
    cases s with
    | createTable definition => exact hrest.of_addTable (distinctLists_of_mem hv (.head _))
    | _ => exact hrest

theorem foldl_tablePhase_again {prior : Prior} {g : Graph}
    (hn : (g.enums.map fun e => Text.lower e.name).Nodup)
    (ht : (g.tables.map fun t => Text.lower t.name).Nodup) (pool : IdPool)
    {statements : List Statement} (hv : DistinctValues statements) {d : Draft}
    (h : LeadsTo g (statements.foldl (tablePhase prior) d)) :
    statements.foldl (tablePhase (Prior.ofGraph g)) (d.withPool pool) =
      (statements.foldl (tablePhase prior) d).withPool pool := by
  induction statements generalizing d with
  | nil => rfl
  | cons s rest ih =>
    have hvrest : DistinctValues rest := fun s' hs' => hv s' (.tail _ hs')
    have hstep : tablePhase (Prior.ofGraph g) (d.withPool pool) s =
        (tablePhase prior d s).withPool pool := by
      have hrest : LeadsTo g (tablePhase prior d s) := LeadsTo.of_tablePhase hvrest h
      cases s with
      | createTable definition =>
        exact addTable_again hn ht pool (distinctLists_of_mem hv (.head _)) hrest
      | _ => rfl
    rw [List.foldl_cons, hstep]
    exact ih hvrest h

theorem indexPhase_withPool (d : Draft) (pool : IdPool) (s : Statement) :
    indexPhase (d.withPool pool) s = (indexPhase d s).withPool pool := by
  cases s with
  | createIndex table columns unique =>
    have hid : (d.withPool pool).tableId? table = d.tableId? table := rfl
    unfold indexPhase addIndex
    dsimp only
    split
    · rw [hid]
      cases d.tableId? table with
      | some id => rfl
      | none => rfl
    · rfl
  | _ => rfl

theorem keyPhase_withPool (d : Draft) (pool : IdPool) (s : Statement) :
    keyPhase (d.withPool pool) s = (keyPhase d s).withPool pool := by
  cases s with
  | alterForeignKey table key =>
    have hid : (d.withPool pool).tableId? table = d.tableId? table := rfl
    unfold keyPhase
    dsimp only
    rw [hid]
    cases d.tableId? table with
    | some id => exact queueKey_withPool id table d pool key
    | none => rfl
  | _ => rfl

theorem resolveKey_withPool (r : Draft × List Link) (pool : IdPool) (p : PendingKey) :
    resolveKey (r.1.withPool pool, r.2) p =
      ((resolveKey r p).1.withPool pool, (resolveKey r p).2) := by
  obtain ⟨d, links⟩ := r
  have hsource : (d.withPool pool).source? p = d.source? p := rfl
  have htarget : (d.withPool pool).target? p = d.target? p := rfl
  rw [resolveKey_eq, resolveKey_eq, hsource, htarget]
  cases d.source? p with
  | none => rfl
  | some source =>
    dsimp only
    cases d.target? p with
    | some target => rfl
    | none => rfl

theorem links_withPool (d : Draft) (pool : IdPool) :
    (d.withPool pool).links = (d.links.1.withPool pool, d.links.2) := by
  have hfold : d.pending.foldl resolveKey (d.withPool pool, []) =
      ((d.pending.foldl resolveKey (d, [])).1.withPool pool,
        (d.pending.foldl resolveKey (d, [])).2) := by
    change d.pending.foldl resolveKey ((fun r : Draft × List Link => (r.1.withPool pool, r.2))
      (d, [])) = _
    exact List.foldl_hom _ fun r p => resolveKey_withPool r pool p
  have hpending : (d.withPool pool).pending = d.pending := rfl
  have huses : (d.withPool pool).enumUses = d.enumUses := rfl
  unfold links
  rw [hpending, huses, hfold]

/-- **All phases again**, if the first reading of the statements leads to the graph. -/
theorem ofStatements_again {previous : Option Graph} {statements : List Statement} {g : Graph}
    (hv : DistinctValues statements) (hn : (g.enums.map fun e => Text.lower e.name).Nodup)
    (ht : (g.tables.map fun t => Text.lower t.name).Nodup)
    (h : LeadsTo g (ofStatements previous statements)) :
    ofStatements (some g) statements =
      (ofStatements previous statements).withPool (IdPool.ofGraph g) := by
  let pool := IdPool.ofGraph g
  let start : Draft := { pool := IdPool.ofGraph? previous }
  have hlate : ∀ d : Draft, LeadsTo g (statements.foldl keyPhase (statements.foldl indexPhase d)) →
      LeadsTo g d := by
    intro d hd
    have hs := (LateStep.foldl indexPhase_step statements d).trans
      (.foldl keyPhase_step statements _)
    exact ⟨hs.outline ▸ hd.tables, hs.enums ▸ hd.enums⟩
  have htables : LeadsTo g (statements.foldl (tablePhase (Prior.ofGraph? previous))
      (statements.foldl (enumPhase (Prior.ofGraph? previous)) start)) := hlate _ h
  have henums := (htables.of_tablePhase hv).enums.subset
  have hstart : ({ pool := IdPool.ofGraph? (some g) } : Draft) = start.withPool pool := rfl
  have hindexes := foldl_withPool (fun d s => indexPhase_withPool d pool s) statements
  have hkeys := foldl_withPool (fun d s => keyPhase_withPool d pool s) statements
  unfold ofStatements
  dsimp only
  rw [hstart]
  change statements.foldl keyPhase (statements.foldl indexPhase
    (statements.foldl (tablePhase (Prior.ofGraph g))
      (statements.foldl (enumPhase (Prior.ofGraph g)) (start.withPool pool)))) = _
  rw [foldl_enumPhase_again hn pool statements henums, foldl_tablePhase_again hn ht pool hv htables,
    hindexes, hkeys]

end Draft

/-! ## Edges -/

theorem reconcileAfter_congr {styles styles' : List (String × EdgeStyle)} {seen : List String}
    {links : List Link} (h : ∀ l : Link, l.toEdge styles ∈ reconcileAfter styles seen links →
      l.toEdge styles' = l.toEdge styles) :
    reconcileAfter styles' seen links = reconcileAfter styles seen links := by
  induction links generalizing seen with
  | nil => rfl
  | cons l rest ih =>
    unfold reconcileAfter at h ⊢
    split
    · rename_i hseen
      rw [if_pos hseen] at h
      exact ih h
    · rename_i hseen
      rw [if_neg hseen] at h
      rw [h l (.head _), ih fun l' hl' => h l' (.tail _ hl')]

/-- **Edges keep their looks**: the edge of a key has the style that it takes from itself. -/
theorem reconcileEdges_again (previous : List Edge) (links : List Link) :
    reconcileEdges (reconcileEdges previous links) links = reconcileEdges previous links := by
  have hkeys : ((reconcileEdges previous links).map Edge.key).Nodup :=
    (reconcileAfter_keys (stylesByKey previous) [] links).1
  have hstyles : ((stylesByKey (reconcileEdges previous links)).map (·.1)).Nodup := by
    unfold stylesByKey
    rw [List.map_map]
    show ((reconcileEdges previous links).reverse.map Edge.key).Nodup
    rw [List.map_reverse]
    exact List.nodup_reverse.2 hkeys
  refine reconcileAfter_congr fun l hl => ?_
  have hmem : (l.key, (l.toEdge (stylesByKey previous)).style) ∈
      stylesByKey (reconcileEdges previous links) := by
    refine List.mem_map.2 ⟨l.toEdge (stylesByKey previous), List.mem_reverse.2 hl, ?_⟩
    rw [Link.key_toEdge]
  have hlookup := lookup_of_nodup hstyles hmem
  unfold Link.toEdge at hlookup ⊢
  rw [hlookup]
  rfl

/-! ## Outcome -/

/-- The outcome of a draft does not depend on the ids in use, and takes its edges from itself. -/
theorem ofDraft_again (previous : Option Graph) (d : Draft) (links : List Link) (pool : IdPool) :
    Outcome.ofDraft (some (Outcome.ofDraft previous d links).graph) (d.withPool pool) links =
      .ofDraft previous d links := by
  have hedges := reconcileEdges_again (Prior.ofGraph? previous).edges links
  have hbefore : (Prior.ofGraph? (some (Outcome.ofDraft previous d links).graph)).edges =
      reconcileEdges (Prior.ofGraph? previous).edges links := rfl
  unfold Outcome.ofDraft at hbefore ⊢
  rw [hbefore, hedges]
  rfl

/-- **A text that is read again**, against the graph that it gave, gives this graph and these
warnings. -/
theorem recover_again {text : String} {previous : Option Graph} {o : Outcome}
    (hv : DistinctValues (Script.ofText text).statements) (h : recover text previous = .ok o)
    (hn : (o.graph.enums.map fun e => Text.lower e.name).Nodup) :
    recover text (some o.graph) = .ok o := by
  obtain ⟨hne, ho⟩ := recover_eq_ok_iff.1 h
  obtain ⟨hcomplete, -⟩ := Draft.complete_links previous (Script.ofText text).statements
  have hnames : (o.graph.tables.map fun t => Text.lower t.name).Nodup := by
    rw [ho]
    exact hcomplete.named.names
  have hleads : Draft.LeadsTo o.graph
      (Draft.ofStatements previous (Script.ofText text).statements) := by
    have hlate := Draft.lateStep_links (Draft.ofStatements previous (Script.ofText text).statements)
    have htables : o.graph.tables.map Table.outline = (Draft.ofStatements previous
        (Script.ofText text).statements).tables.map Table.outline := by
      rw [ho]
      exact hlate.outline
    have henums : o.graph.enums =
        (Draft.ofStatements previous (Script.ofText text).statements).enums := by
      rw [ho]
      exact hlate.enums
    constructor
    · exact htables ▸ List.prefix_rfl
    · exact henums ▸ .refl _
  have hagain := Draft.ofStatements_again hv hn hnames hleads
  refine recover_eq_ok_iff.2 ?_
  rw [hagain, Draft.links_withPool]
  refine ⟨hne, ?_⟩
  rw [ho]
  exact (ofDraft_again previous _ _ _).symm

set_option maxRecDepth 2000 in
/-- Two columns with the same listed values, a table that was there before, and an edge with a look
of its own. -/
theorem recover_again_orders :
    ∃ o, recover "CREATE TABLE users (id INT, state ENUM('on', 'off'));
        CREATE TABLE orders (state ENUM('on', 'off'), user_id INT REFERENCES Users(ID));"
      (some
        { tables := [{ id := "table-1", name := "USERS" }]
          edges :=
            [{ id := "edge-1", source := "table-orders", sourceHandle := "user_id",
               target := "table-1", targetHandle := "id", cardinality := .manyToOne,
               style := { label := some "placed by", animated := true } }] }) = .ok o ∧
      recover "CREATE TABLE users (id INT, state ENUM('on', 'off'));
        CREATE TABLE orders (state ENUM('on', 'off'), user_id INT REFERENCES Users(ID));"
      (some o.graph) = .ok o := by
  let text := "CREATE TABLE users (id INT, state ENUM('on', 'off'));
        CREATE TABLE orders (state ENUM('on', 'off'), user_id INT REFERENCES Users(ID));"
  let previous : Option Graph := some
    { tables := [{ id := "table-1", name := "USERS" }]
      edges :=
        [{ id := "edge-1", source := "table-orders", sourceHandle := "user_id",
           target := "table-1", targetHandle := "id", cardinality := .manyToOne,
           style := { label := some "placed by", animated := true } }] }
  obtain ⟨statements, hread, hv, hne, hn⟩ : ∃ statements,
      (Script.ofText text).statements = statements ∧ DistinctValues statements ∧
      (Draft.ofStatements previous statements).links.1.tables ≠ [] ∧
      ((Draft.ofStatements previous statements).links.1.enums.map
        fun e => Text.lower e.name).Nodup :=
    ⟨_, Script.statements_ofList _, by decide +kernel⟩
  have h := recover_of_statements hread previous hne
  rw [← hread] at hv
  exact ⟨_, h, recover_again hv h hn⟩

end Recovery

end DdlGraph
