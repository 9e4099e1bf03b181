import DdlGraph.Proofs.CarriedKeys
import DdlGraph.Proofs.QuotingModes

/-!
# Foreign keys in both layouts

The definitions of a text state the keys that the text carries, and these wait in the draft and
become the edges of the graph that is recovered.

* `laid_statementsOf`: the keys that a text carries wait after all phases;
* `recover_script_joins`: what comes back is what the text carries;
* `recover_script_layouts`: keys behind the columns or in statements of their own come back whole,
  and keys in columns do just if no column has two.
-/

namespace DdlGraph

open Sql Ddl

/-! ## Statements of a keyed graph -/

namespace Recovery.Draft

theorem statesKeys_reline {x y : TableDef} {keys : List KeySpec} {f : Nat → Nat}
    (h : x.reline f = y) (hy : StatesKeys y keys) : StatesKeys x keys := by
  subst h
  exact ⟨hy.titles, hy.source, hy.stated⟩

section
variable {s : Settings} {g : Graph} (hg : g.Keyed) {typed : Column → Bool → ColumnDef}
  (htype : ∀ t ∈ g.tables, ∀ c ∈ t.columns, ∀ keyHere,
    TypeSays (typeClause s g c keyHere) c (typed c keyHere))
include hg htype

/-- **The definition of a table states its keys.** -/
theorem statesKeys_tableDef {t : Table} (ht : t ∈ g.tables) :
    StatesKeys (tableDef s g typed (insideKeys s (keysOf g) t) t) (tableKeys s g t) := by
  have hsketch := Graph.BuiltInOnly.sketch_tableDef htype ht (insideKeys s (keysOf g) t)
  have hnames := titles_of_sketch hsketch.symm
  have hinside : ∀ k ∈ insideKeys s (keysOf g) t, k ∈ keysOf g ∧ k.sourceTable = t.name := by
    intro k hk
    unfold insideKeys at hk
    split at hk
    · exact ⟨(List.mem_filter.1 hk).1, eq_of_beq (List.mem_filter.1 hk).2⟩
    · cases hk
  have hcolumn : ∀ {c : Column} {k : KeySpec},
      clauseKey s (keyOfColumn? (insideKeys s (keysOf g) t) c) = some k →
        k ∈ insideKeys s (keysOf g) t ∧ k.sourceColumn = c.title := by
    intro c k hk
    unfold clauseKey at hk
    split at hk
    · cases hk
    · have htitle := List.find?_some hk
      exact ⟨List.mem_reverse.1 (List.mem_of_find?_eq_some hk), eq_of_beq htitle⟩
  constructor
  · have htitles := congrArg (List.map Text.lower) hnames
    rw [List.map_map, List.map_map] at htitles
    exact (congrArg List.Nodup htitles).mp (hg.titles t ht)
  · intro k hk
    have hfound : k.sourceTable = t.name ∧ k.sourceColumn ∈ t.columns.map (·.title) := by
      rcases List.mem_append.1 hk with hk | hk
      · obtain ⟨c, hc, hk⟩ := List.mem_filterMap.1 hk
        obtain ⟨hm, htitle⟩ := hcolumn hk
        exact ⟨(hinside k hm).2, List.mem_map.2 ⟨c, hc, htitle.symm⟩⟩
      · split at hk
        · obtain ⟨hm, hname⟩ := hinside k hk
          obtain ⟨t', ht', c, hc, hsource, htitle⟩ := hg.source_of_mem_keysOf hm
          obtain rfl := hg.table_ext ht' ht (congrArg Text.lower (hsource.symm.trans hname))
          exact ⟨hname, List.mem_map.2 ⟨c, hc, htitle.symm⟩⟩
        · cases hk
    exact ⟨hfound.1, hnames ▸ hfound.2⟩
  · refine ⟨if s.dialect = .mysql then insideKeys s (keysOf g) t else [], ?_, ?_, fun id => ?_⟩
    · unfold tableDef
      dsimp only
      split <;> rfl
    · exact List.subset_append_right _ _
    · have hpending : ∀ c ∈ t.columns, columnPending? id (columnDef s g typed
          (promotesKey t (insideKeys s (keysOf g) t))
          (keyOfColumn? (insideKeys s (keysOf g) t) c) c) =
            (clauseKey s (keyOfColumn? (insideKeys s (keysOf g) t) c)).map (waiting id) := by
        intro c hc
        have hsaid := htype t ht c hc
          (c.isPrimary && !promotesKey t (insideKeys s (keysOf g) t))
        unfold columnPending?
        rw [reference_columnDef _ hsaid, name_columnDef _ hsaid]
        cases hk : clauseKey s (keyOfColumn? (insideKeys s (keysOf g) t) c) with
        | none => rfl
        | some k =>
          unfold waiting
          rw [← (hcolumn hk).2]
          rfl
      unfold tableKeys tableDef
      dsimp only
      rw [List.filterMap_map, List.map_append, List.map_filterMap]
      congr 1
      exact List.filterMap_congr hpending

/-- **The keys that a text carries wait** after all phases. -/
theorem laid_statementsOf {previous : Option Graph} (hp : ∀ g ∈ previous, g.PlainIds)
    {statements : List Statement}
    (h : statements.map (Statement.reline fun _ => 0) = statementsOf s g typed) :
    Laid previous (g.tables.map Table.sketch) (carriedKeys s g)
      (ofStatements previous statements) := by
  have hsketches := sketches_statementsOf htype h
  have hnames := nodup_names_of_sketches hsketches hg.names
  have hdefined := filterMap_reline defined? (f := fun _ => 0) (u := TableDef.reline fun _ => 0)
    (fun s => by cases s <;> rfl) statements
  rw [h, defined_statementsOf] at hdefined
  have haltered := filterMap_reline altered? (f := fun _ => 0) (u := id)
    (fun s => by cases s <;> rfl) statements
  rw [h, altered_statementsOf, List.map_id] at haltered
  have hadded : statements.filterMap altered? =
      (if inlinesKeys s then [] else keysOf g).map fun k => (k.sourceTable, k.keyDef) := by
    rw [← haltered]
    split <;> rfl
  have hstates : List.Forall₂ StatesKeys (statements.filterMap defined?)
      (g.tables.map (tableKeys s g)) := by
    have hdefs : List.Forall₂ StatesKeys
        ((statements.filterMap defined?).map (TableDef.reline fun _ => 0))
        (g.tables.map (tableKeys s g)) := by
      rw [← hdefined, List.forall₂_map_left_iff, List.forall₂_map_right_iff]
      exact List.forall₂_same.2 fun t ht => statesKeys_tableDef hg htype ht
    rw [List.forall₂_map_left_iff] at hdefs
    exact hdefs.imp fun x keys hx => statesKeys_reline rfl hx
  have hsited : ∀ k ∈ (if inlinesKeys s then [] else keysOf g),
      Sited ((statements.filterMap defined?).map TableDef.sketch) k := by
    intro k hk
    have hm : k ∈ keysOf g := by
      split at hk
      · cases hk
      · exact hk
    rw [hsketches]
    exact hg.sited_of_mem_keysOf hm
  have hlaid := laid_ofStatements hp hstates hnames hadded hsited
  rw [hsketches, ← List.flatMap_def] at hlaid
  exact hlaid

end

end Recovery.Draft

namespace Recovery

open Draft

section
variable {g : Graph} (hg : g.Keyed) {time : String} (ht : '\n' ∉ time.toList)
  {previous : Option Graph} (hp : ∀ g ∈ previous, g.PlainIds)
include hg ht hp

/-- **What a text carries comes back**: its foreign keys are the edges of the graph that is
recovered, in every dialect and layout. -/
theorem recover_script_joins {s : Settings}
    (hn : ∀ t ∈ g.tables, ∀ c ∈ t.columns, NamesColumn s c.title) (he : g.EscapesRead s time) :
    ∃ o, recover (script s time g) previous = .ok o ∧ ∀ x, x ∈ o.graph.joins ↔
      x ∈ (carriedKeys s g).filterMap (KeySpec.join? g.tables) := by
  have hdefaults : g.DefaultsSafe s.dialect
      (Dialect.detect (script s time g)).escapesBackslash := by
    intro t htm c hc v hv
    rw [hg.noDefaults t htm c hc] at hv
    cases hv
  have hvalues : s.dialect = .postgresql →
      (Dialect.detect (script s time g)).escapesBackslash = false ∨
        ∀ e ∈ g.enums, ∀ v ∈ e.values, '\\' ∉ v.toList := by
    intro hs
    by_cases hback : ∃ e ∈ g.enums, ∃ v ∈ e.values, '\\' ∈ v.toList
    · refine .inl ((he hback).symm.trans ?_)
      rw [hs]
      rfl
    · exact .inr fun e hem v hv hm => hback ⟨e, hem, v, hv, hm⟩
  obtain ⟨typed, hread, htype⟩ := hg.toBuiltInOnly.exists_readable hn hdefaults hvalues
  have hlaid := laid_statementsOf hg htype hp (congrArg Script.statements (ofText_script ht hread))
  have hkeys : ∀ k ∈ carriedKeys s g, Sited (g.tables.map Table.sketch) k :=
    fun k hk => hg.sited_of_mem_keysOf (Graph.Keyed.carriedKeys_subset s hk)
  have hbars : ∀ x ∈ g.tables.map Table.sketch, ∀ c ∈ x.2, '|' ∉ c.1.toList := by
    intro x hx c hc
    obtain ⟨t, htm, rfl⟩ := List.mem_map.1 hx
    obtain ⟨c, hcm, rfl⟩ := List.mem_map.1 hc
    exact hg.titleBars t htm c hcm
  have hjoins := hlaid.mem_joins_ofDraft hkeys hbars
  have hsame : KeySpec.join? (ofStatements previous
      (Script.ofText (script s time g)).statements).tables = KeySpec.join? g.tables :=
    funext fun k => join?_congr hlaid.sketches k
  rw [hsame] at hjoins
  have hlate := lateStep_links (ofStatements previous (Script.ofText (script s time g)).statements)
  have htables := map_outline_congr Table.sketch Table.sketch_outline hlate.outline
  rw [hlaid.sketches] at htables
  refine ⟨_, recover_eq_ok_iff.2 ⟨fun hnil => hg.nonempty ?_, rfl⟩, hjoins⟩
  rw [hnil] at htables
  exact List.map_eq_nil_iff.1 htables.symm

/-- **Foreign keys in both layouts**, in every dialect and after every graph before. Keys that are
added to tables all come back, and so do those that stand behind the columns. Columns hold one key
each, so what they hold comes back whole just if no column has two. -/
theorem recover_script_layouts (s : Settings)
    (hn : s.caseSensitive = true ∨
      ∀ t ∈ g.tables, ∀ c ∈ t.columns, Text.foldAscii c.title ∉ ["like", "exclude"])
    (he : ∀ inside, g.EscapesRead { s with inlineConstraints := inside } time) :
    ∃ o o', recover (script { s with inlineConstraints := true } time g) previous = .ok o ∧
      recover (script { s with inlineConstraints := false } time g) previous = .ok o' ∧
      (∀ x ∈ o.graph.joins, x ∈ o'.graph.joins) ∧ (∀ x ∈ o'.graph.joins, x ∈ g.joins) ∧
      ((∀ x, x ∈ o.graph.joins ↔ x ∈ g.joins) ↔ s.dialect = .mysql ∨ g.OneKeyEach) ∧
      ((∀ x, x ∈ o'.graph.joins ↔ x ∈ g.joins) ↔ s.dialect ≠ .sqlite ∨ g.OneKeyEach) := by
  let inside : Settings := { s with inlineConstraints := true }
  let added : Settings := { s with inlineConstraints := false }
  have hnames : ∀ inline, ∀ t ∈ g.tables, ∀ c ∈ t.columns,
      NamesColumn { s with inlineConstraints := inline } c.title := by
    intro inline t htm c hc
    rcases hn with hs | hn
    · exact namesColumn_of_caseSensitive hs c.title
    · exact namesColumn_of_not_mem (hn t htm c hc) _
  obtain ⟨o, ho, hjoins⟩ := recover_script_joins hg ht hp (hnames true) (he true)
  obtain ⟨o', ho', hjoins'⟩ := recover_script_joins hg ht hp (hnames false) (he false)
  have hinside : inlinesKeys inside = true := rfl
  have hadded : inlinesKeys added = false ↔ s.dialect ≠ .sqlite := by
    change (false || !s.dialect.altersConstraints) = false ↔ _
    cases s.dialect <;> decide
  have hsub : carriedKeys inside g ⊆ carriedKeys added g := by
    cases hi : inlinesKeys added with
    | false =>
      rw [Graph.Keyed.carriedKeys_added hi]
      exact Graph.Keyed.carriedKeys_subset inside
    | true =>
      have hsame : carriedKeys inside g = carriedKeys added g :=
        Graph.Keyed.carriedKeys_congr rfl (hinside.trans hi.symm)
      exact hsame ▸ List.Subset.refl _
  refine ⟨o, o', ho, ho', fun x hx => ?_, fun x hx => ?_, ?_, ?_⟩
  · obtain ⟨k, hk, hx⟩ := List.mem_filterMap.1 ((hjoins x).1 hx)
    exact (hjoins' x).2 (List.mem_filterMap.2 ⟨k, hsub hk, hx⟩)
  · obtain ⟨k, hk, hx⟩ := List.mem_filterMap.1 ((hjoins' x).1 hx)
    have hm := Graph.Keyed.carriedKeys_subset added hk
    exact (hg.mem_joins_iff x).2 (List.mem_filterMap.2 ⟨k, hm, hx⟩)
  · simp only [hjoins]
    refine (hg.carries_all_iff inside).trans ?_
    rw [hinside]
    exact or_iff_right Bool.true_eq_false.mp
  · simp only [hjoins']
    refine (hg.carries_all_iff added).trans ?_
    have hmysql : s.dialect = .mysql → s.dialect ≠ .sqlite := by
      intro hs
      rw [hs]
      decide
    rw [hadded]
    exact ⟨fun h => h.elim .inl fun h => h.imp hmysql id, fun h => h.imp id .inr⟩

end

/-- Columns of integers without actions are of built-in types. -/
theorem builtInOnly_of_integers {g : Graph} (hne : g.tables ≠ [])
    (hnames : (g.tables.map fun t => Text.lower t.name).Nodup)
    (htitles : ∀ t ∈ g.tables, (t.columns.map fun c => Text.lower c.title).Nodup)
    (h : ∀ t ∈ g.tables, ∀ c ∈ t.columns, c.dataType = "integer" ∧ c.params = [] ∧
      ∀ k ∈ c.foreignKey, k.onDelete = none ∧ k.onUpdate = none) : g.BuiltInOnly := by
  refine ⟨hne, hnames, htitles, fun t ht c hc => ?_, fun t ht c hc k hk => ?_⟩
  · obtain ⟨htype, hparams, -⟩ := h t ht c hc
    refine ⟨"integer", 0, by decide, ?_, ?_⟩
    · rw [htype]
      decide
    · rw [hparams]
      exact nofun
  · obtain ⟨hdelete, hupdate⟩ := (h t ht c hc).2.2 k hk
    constructor
    · intro text htext
      cases hdelete.symm.trans htext
    · intro text htext
      cases hupdate.symm.trans htext

/-- Two columns that refer to other tables, one of them to another schema. -/
theorem recover_script_layouts_orders :
    let g : Graph :=
      { tables := [
          { id := "t1", name := "users", columns := [{ title := "id", dataType := "integer" }] },
          { id := "t2", name := "orders", columns := [
              { title := "user", dataType := "integer" },
              { title := "shop", dataType := "integer",
                foreignKey := some ⟨"shops", "id", none, none, false⟩ }] }]
        edges := [
          { id := "k1", source := "t2", sourceHandle := "source-user", target := "t1",
            targetHandle := "target-id", cardinality := .manyToMany }] }
    ∃ o o', recover (script { inlineConstraints := true } "now" g) none = .ok o ∧
      recover (script { inlineConstraints := false } "now" g) none = .ok o' ∧
      (∀ x, x ∈ o.graph.joins ↔ x ∈ g.joins) ∧ ∀ x, x ∈ o'.graph.joins ↔ x ∈ g.joins := by
  intro g
  have hbuilt : g.BuiltInOnly := builtInOnly_of_integers (by decide) (by decide)
    (by decide) (by decide)
  have hg : g.Keyed :=
    { toBuiltInOnly := hbuilt
      ids := by decide
      tableBars := by decide
      titleBars := by decide
      noDefaults := by decide
      edges := by decide
      unresolved := by decide }
  have hone : g.OneKeyEach := by
    unfold Graph.OneKeyEach
    decide
  have hplain : ¬∃ e ∈ g.enums, ∃ v ∈ e.values, '\\' ∈ v.toList := by decide
  have hprevious : ∀ g ∈ (none : Option Graph), g.PlainIds := fun _ h => nomatch h
  obtain ⟨o, o', ho, ho', -, -, hinside, hadded⟩ := recover_script_layouts hg
    (show '\n' ∉ "now".toList by decide) hprevious {} (.inl rfl) fun _ h => absurd h hplain
  exact ⟨o, o', ho, ho', hinside.2 (.inr hone), hadded.2 (.inr hone)⟩

/-- A column with two foreign keys holds the last one only, so the other is lost. -/
theorem recover_script_layouts_twice :
    let g : Graph :=
      { tables := [
          { id := "t1", name := "users", columns := [{ title := "id", dataType := "integer" }] },
          { id := "t2", name := "clients", columns := [{ title := "id", dataType := "integer" }] },
          { id := "t3", name := "orders", columns := [{ title := "user", dataType := "integer" }] }]
        edges := [
          { id := "k1", source := "t3", sourceHandle := "source-user", target := "t1",
            targetHandle := "target-id", cardinality := .manyToMany },
          { id := "k2", source := "t3", sourceHandle := "source-user", target := "t2",
            targetHandle := "target-id", cardinality := .manyToMany }] }
    g.joins = [⟨"orders", "user", "users", "id"⟩, ⟨"orders", "user", "clients", "id"⟩] ∧
      (∃ o, recover (script { inlineConstraints := false } "now" g) none = .ok o ∧
        ∀ x, x ∈ o.graph.joins ↔ x ∈ g.joins) ∧
      ∃ o, recover (script { inlineConstraints := true } "now" g) none = .ok o ∧
        ∀ x, x ∈ o.graph.joins ↔ x = ⟨"orders", "user", "clients", "id"⟩ := by
  intro g
  have hbuilt : g.BuiltInOnly := builtInOnly_of_integers (by decide) (by decide)
    (by decide) (by decide)
  have hg : g.Keyed :=
    { toBuiltInOnly := hbuilt
      ids := by decide
      tableBars := by decide
      titleBars := by decide
      noDefaults := by decide
      edges := by decide
      unresolved := by decide }
  have hplain : ¬∃ e ∈ g.enums, ∃ v ∈ e.values, '\\' ∈ v.toList := by decide
  have hprevious : ∀ g ∈ (none : Option Graph), g.PlainIds := fun _ h => nomatch h
  have hjoins : ∀ s : Settings, s.caseSensitive = true → ∃ o,
      recover (script s "now" g) none = .ok o ∧ ∀ x, x ∈ o.graph.joins ↔
        x ∈ (carriedKeys s g).filterMap (KeySpec.join? g.tables) := by
    intro s hs
    exact recover_script_joins hg (show '\n' ∉ "now".toList by decide) hprevious
      (fun _ _ c _ => namesColumn_of_caseSensitive hs c.title) fun h => absurd h hplain
  have hadded : (carriedKeys { inlineConstraints := false } g).filterMap
      (KeySpec.join? g.tables) = g.joins := by
    decide
  have hinside : (carriedKeys { inlineConstraints := true } g).filterMap
      (KeySpec.join? g.tables) = [⟨"orders", "user", "clients", "id"⟩] := by
    decide
  refine ⟨by decide, ?_, ?_⟩
  · obtain ⟨o, ho, ho'⟩ := hjoins { inlineConstraints := false } rfl
    rw [hadded] at ho'
    exact ⟨o, ho, ho'⟩
  · obtain ⟨o, ho, ho'⟩ := hjoins { inlineConstraints := true } rfl
    simp only [hinside, List.mem_singleton] at ho'
    exact ⟨o, ho, ho'⟩

end Recovery

end DdlGraph
