import DdlGraph.Proofs.JoinedColumns

/-!
# Foreign keys that a text carries

A text states its foreign keys with their columns, behind the columns, or in statements of their
own. All forms but the first carry every key; a column holds just one, the last of its keys
(`keyOfColumn?`), so that the others are lost.

* `keysOf_eq`: the keys of edges come before those of columns;
* `mem_joins_iff`: the edges of a graph join what its keys join;
* `carries_all_iff`: when a text carries all keys.
-/

namespace DdlGraph

open Sql Ddl

/-! ## Keys of a text -/

namespace Ddl

/-- **Keys that the definition of a table states**: one for each column, or all of them behind the
columns. -/
def tableKeys (s : Settings) (g : Graph) (t : Table) : List KeySpec :=
  (t.columns.filterMap fun c => clauseKey s (keyOfColumn? (insideKeys s (keysOf g) t) c)) ++
    if s.dialect = .mysql then insideKeys s (keysOf g) t else []

/-- **Keys that a text carries**, in their order. -/
def carriedKeys (s : Settings) (g : Graph) : List KeySpec :=
  g.tables.flatMap (tableKeys s g) ++ if inlinesKeys s then [] else keysOf g

/-- The keys of edges. -/
def edgeKeys (g : Graph) : List KeySpec :=
  g.foreignKeys.filterMap (KeySpec.ofEdge? g)

/-- The keys of columns whose target is not in the graph. -/
def columnKeys (g : Graph) : List KeySpec :=
  g.tables.flatMap fun t => t.columns.filterMap (KeySpec.ofColumn? t)

theorem firstOfEach_append {α : Type} (seen : List String) (xs ys : List (String × α)) :
    ∃ seen', firstOfEach seen (xs ++ ys) = firstOfEach seen xs ++ firstOfEach seen' ys := by
  induction xs generalizing seen with
  | nil => exact ⟨seen, rfl⟩
  | cons x xs ih =>
    obtain ⟨key, a⟩ := x
    rw [List.cons_append, firstOfEach, firstOfEach]
    split
    · exact ih seen
    · obtain ⟨seen', he⟩ := ih (key :: seen)
      exact ⟨seen', congrArg ((key, a) :: ·) he⟩

theorem mem_of_mem_firstKeys {seen : List String} {keys : List KeySpec} {k : KeySpec}
    (h : k ∈ (firstOfEach seen (keys.map fun k => (k.canonical, k))).map (·.2)) : k ∈ keys := by
  obtain ⟨x, hx, rfl⟩ := List.mem_map.1 h
  obtain ⟨k, hk, rfl⟩ := List.mem_map.1 (mem_of_mem_firstOfEach hx)
  exact hk

/-- **Keys of edges come first**, then those of columns. -/
theorem keysOf_eq (g : Graph) : ∃ ofEdges ofColumns, keysOf g = ofEdges ++ ofColumns ∧
    ofEdges ⊆ edgeKeys g ∧ ofColumns ⊆ columnKeys g ∧
      ∀ k ∈ edgeKeys g, ∃ k' ∈ ofEdges, k'.canonical = k.canonical := by
  obtain ⟨seen, he⟩ := firstOfEach_append [] ((edgeKeys g).map fun k => (k.canonical, k))
    ((columnKeys g).map fun k => (k.canonical, k))
  refine ⟨(firstOfEach [] ((edgeKeys g).map fun k => (k.canonical, k))).map (·.2),
    (firstOfEach seen ((columnKeys g).map fun k => (k.canonical, k))).map (·.2), ?_,
    fun _ h => mem_of_mem_firstKeys h, fun _ h => mem_of_mem_firstKeys h, ?_⟩
  · have hall : allKeys g = edgeKeys g ++ columnKeys g := rfl
    unfold keysOf
    rw [hall, List.map_append, he, List.map_append]
  · intro k hk
    have hm : (k.canonical, k) ∈ (edgeKeys g).map fun k => (k.canonical, k) :=
      List.mem_map_of_mem hk
    obtain ⟨x, hx, hcanonical⟩ := exists_mem_firstOfEach hm (List.not_mem_nil (a := k.canonical))
    obtain ⟨k', -, rfl⟩ := List.mem_map.1 (mem_of_mem_firstOfEach hx)
    exact ⟨k', List.mem_map_of_mem hx, hcanonical⟩

end Ddl

/-! ## Keyed graphs -/

/-- **Keyed graph**: it has built-in types and no defaults, and its names have no bar. Its edges
join columns that are there, and what a column refers to without an edge is not there. -/
structure Graph.Keyed (g : Graph) : Prop extends g.BuiltInOnly where
  ids : (g.tables.map (·.id)).Nodup
  tableBars : ∀ t ∈ g.tables, '|' ∉ t.name.toList
  titleBars : ∀ t ∈ g.tables, ∀ c ∈ t.columns, '|' ∉ c.title.toList
  noDefaults : ∀ t ∈ g.tables, ∀ c ∈ t.columns, c.defaultValue = none
  edges : ∀ e ∈ g.foreignKeys, ∃ t ∈ g.tables, ∃ c ∈ t.columns, ∃ t' ∈ g.tables, ∃ c' ∈ t'.columns,
    e.source = t.id ∧ e.sourceColumn = c.title ∧ e.target = t'.id ∧ e.targetColumn = c'.title
  unresolved : ∀ t ∈ g.tables, ∀ c ∈ t.columns, ∀ k ∈ c.foreignKey, k.resolved = false →
    (KeySpec.ofForeignKey t c k).target? g.tables = none

/-- **At most one key for each column.** -/
def Graph.OneKeyEach (g : Graph) : Prop :=
  ∀ k ∈ keysOf g, ∀ k' ∈ keysOf g, k.sourceTable = k'.sourceTable →
    k.sourceColumn = k'.sourceColumn → k = k'

/-- The key joins columns of the graph, by their exact names. -/
def JoinsIn (g : Graph) (k : KeySpec) : Prop :=
  ∃ t ∈ g.tables, ∃ c ∈ t.columns, ∃ t' ∈ g.tables, ∃ c' ∈ t'.columns, k.sourceTable = t.name ∧
    k.sourceColumn = c.title ∧ k.targetTable = t'.name ∧ k.targetColumn = c'.title

/-- Keys that are the same join the same columns, case left aside. -/
theorem KeySpec.lower_ends {k k' : KeySpec} (hk : '|' ∉ k.sourceTable.toList ∧
      '|' ∉ k.sourceColumn.toList ∧ '|' ∉ k.targetTable.toList)
    (hk' : '|' ∉ k'.sourceTable.toList ∧ '|' ∉ k'.sourceColumn.toList ∧
      '|' ∉ k'.targetTable.toList) (h : k.canonical = k'.canonical) :
    Text.lower k.sourceTable = Text.lower k'.sourceTable ∧
      Text.lower k.sourceColumn = Text.lower k'.sourceColumn ∧
      Text.lower k.targetTable = Text.lower k'.targetTable ∧
      Text.lower k.targetColumn = Text.lower k'.targetColumn := by
  have hsplit : ∀ k : KeySpec, k.canonical = Text.lower (k.sourceTable ++ "|" ++
      (k.sourceColumn ++ "|" ++ (k.targetTable ++ "|" ++ k.targetColumn))) := by
    intro k
    unfold KeySpec.canonical edgeKey
    simp only [String.append_assoc]
  rw [hsplit, hsplit] at h
  obtain ⟨htable, h⟩ := Text.lower_bar_inj hk.1 hk'.1 h
  obtain ⟨hcolumn, h⟩ := Text.lower_bar_inj hk.2.1 hk'.2.1 h
  exact ⟨htable, hcolumn, Text.lower_bar_inj hk.2.2 hk'.2.2 h⟩

namespace Graph.Keyed

variable {g : Graph} (hg : g.Keyed)
include hg

theorem table_ext {t t' : Table} (ht : t ∈ g.tables) (ht' : t' ∈ g.tables)
    (h : Text.lower t.name = Text.lower t'.name) : t = t' :=
  List.inj_on_of_nodup_map hg.names ht ht' h

theorem column_ext {t : Table} (ht : t ∈ g.tables) {c c' : Column} (hc : c ∈ t.columns)
    (hc' : c' ∈ t.columns) (h : Text.lower c.title = Text.lower c'.title) : c = c' :=
  List.inj_on_of_nodup_map (hg.titles t ht) hc hc' h

/-- A key between columns of the graph joins just these. -/
theorem join?_of_joinsIn {k : KeySpec} (h : JoinsIn g k) : k.join? g.tables =
    some ⟨k.sourceTable, k.sourceColumn, k.targetTable, k.targetColumn⟩ := by
  obtain ⟨-, -, -, -, t', ht', c', hc', -, -, htable, hcolumn⟩ := h
  have hfound : g.tables.find? (fun t => Text.lower t.name == Text.lower t'.name) = some t' :=
    find?_of_nodup hg.names ht' (beq_self_eq_true _) fun _ _ h => eq_of_beq h
  have htitles : (t'.columns.map (·.title)).Nodup := by
    refine List.Nodup.of_map Text.lower ?_
    rw [List.map_map]
    exact hg.titles t' ht'
  have hcol := Recovery.Draft.findColumn?_of_column?
    (Recovery.Draft.column?_of_nodup htitles hc')
  unfold KeySpec.join? KeySpec.target?
  rw [htable, hcolumn, hfound, Option.bind_eq_bind, Option.bind_some, hcol]
  rfl

/-- Keys between columns of the graph that are the same have the same ends. -/
theorem join?_of_canonical {k k' : KeySpec} (h : JoinsIn g k) (h' : JoinsIn g k')
    (hk : k.canonical = k'.canonical) : k.join? g.tables = k'.join? g.tables := by
  have hbars : ∀ {k}, JoinsIn g k → '|' ∉ k.sourceTable.toList ∧ '|' ∉ k.sourceColumn.toList ∧
      '|' ∉ k.targetTable.toList := by
    rintro k ⟨t, ht, c, hc, t', ht', -, -, hs, hsc, htt, -⟩
    exact ⟨hs ▸ hg.tableBars t ht, hsc ▸ hg.titleBars t ht c hc, htt ▸ hg.tableBars t' ht'⟩
  obtain ⟨hs, hsc, ht, htc⟩ := KeySpec.lower_ends (hbars h) (hbars h') hk
  rw [hg.join?_of_joinsIn h, hg.join?_of_joinsIn h']
  obtain ⟨t₁, ht₁, c₁, hc₁, u₁, hu₁, d₁, hd₁, hst, hsct, htt, htct⟩ := h
  obtain ⟨t₂, ht₂, c₂, hc₂, u₂, hu₂, d₂, hd₂, hst', hsct', htt', htct'⟩ := h'
  rw [hst, hst'] at hs
  rw [hsct, hsct'] at hsc
  rw [htt, htt'] at ht
  rw [htct, htct'] at htc
  obtain rfl := hg.table_ext ht₁ ht₂ hs
  obtain rfl := hg.column_ext ht₁ hc₁ hc₂ hsc
  obtain rfl := hg.table_ext hu₁ hu₂ ht
  obtain rfl := hg.column_ext hu₁ hd₁ hd₂ htc
  rw [hst, hst', hsct, hsct', htt, htt', htct, htct']

/-- **The key of an edge** joins what the edge joins. -/
theorem exists_edgeKey {e : Edge} (he : e ∈ g.foreignKeys) : ∃ k, KeySpec.ofEdge? g e = some k ∧
    JoinsIn g k ∧ k.join? g.tables = e.join? g.tables := by
  obtain ⟨t, ht, c, hc, t', ht', c', hc', hs, hsc, htt, htc⟩ := hg.edges e he
  have hsource : g.table? e.source = some t := by
    rw [hs]
    exact Recovery.Draft.tableById?_of_nodup hg.ids ht
  have htarget : g.table? e.target = some t' := by
    rw [htt]
    exact Recovery.Draft.tableById?_of_nodup hg.ids ht'
  have hkey : ∃ k, KeySpec.ofEdge? g e = some k ∧ k.sourceTable = t.name ∧
      k.sourceColumn = e.sourceColumn ∧ k.targetTable = t'.name ∧
        k.targetColumn = e.targetColumn := by
    unfold KeySpec.ofEdge?
    rw [hsource, htarget]
    exact ⟨_, rfl, rfl, rfl, rfl, rfl⟩
  obtain ⟨k, hk, hst, hsct, htt', htct⟩ := hkey
  have hjoins : JoinsIn g k :=
    ⟨t, ht, c, hc, t', ht', c', hc', hst, hsct.trans hsc, htt', htct.trans htc⟩
  refine ⟨k, hk, hjoins, ?_⟩
  have hedge : e.join? g.tables = some ⟨t.name, e.sourceColumn, t'.name, e.targetColumn⟩ := by
    change (g.table? e.source).bind _ = _
    rw [hsource, Option.bind_some]
    change (g.table? e.target).bind _ = _
    rw [htarget, Option.bind_some]
    rfl
  rw [hg.join?_of_joinsIn hjoins, hedge, hst, hsct, htt', htct]

theorem joinsIn_of_mem_edgeKeys {k : KeySpec} (h : k ∈ edgeKeys g) : JoinsIn g k := by
  obtain ⟨e, he, hk⟩ := List.mem_filterMap.1 h
  obtain ⟨k', hk', hjoins, -⟩ := hg.exists_edgeKey he
  obtain rfl := Option.some.inj (hk.symm.trans hk')
  exact hjoins

/-- What a column refers to without an edge joins nothing. -/
theorem join?_of_mem_columnKeys {k : KeySpec} (h : k ∈ columnKeys g) :
    k.join? g.tables = none := by
  obtain ⟨t, ht, h⟩ := List.mem_flatMap.1 h
  obtain ⟨c, hc, h⟩ := List.mem_filterMap.1 h
  obtain ⟨f, hf, rfl⟩ := Option.map_eq_some_iff.1 h
  obtain ⟨hkey, hresolved⟩ := Option.filter_eq_some_iff.1 hf
  have hnone := hg.unresolved t ht c hc f hkey (by simpa using hresolved)
  unfold KeySpec.join?
  refine Option.map_eq_none_iff.2 ?_
  exact hnone

/-- Each key starts at a column of the graph. -/
theorem source_of_mem_keysOf {k : KeySpec} (h : k ∈ keysOf g) : ∃ t ∈ g.tables, ∃ c ∈ t.columns,
    k.sourceTable = t.name ∧ k.sourceColumn = c.title := by
  obtain ⟨ofEdges, ofColumns, he, hedges, hcolumns, -⟩ := keysOf_eq g
  rw [he] at h
  rcases List.mem_append.1 h with h | h
  · obtain ⟨t, ht, c, hc, -, -, -, -, hs, hsc, -⟩ := hg.joinsIn_of_mem_edgeKeys (hedges h)
    exact ⟨t, ht, c, hc, hs, hsc⟩
  · obtain ⟨t, ht, h⟩ := List.mem_flatMap.1 (hcolumns h)
    obtain ⟨c, hc, h⟩ := List.mem_filterMap.1 h
    obtain ⟨f, -, rfl⟩ := Option.map_eq_some_iff.1 h
    exact ⟨t, ht, c, hc, rfl, rfl⟩

theorem sited_of_mem_keysOf {k : KeySpec} (h : k ∈ keysOf g) :
    Recovery.Draft.Sited (g.tables.map Table.sketch) k := by
  obtain ⟨t, ht, c, hc, htable, hcolumn⟩ := hg.source_of_mem_keysOf h
  refine ⟨t.sketch, List.mem_map_of_mem ht, htable.symm, ?_, ?_⟩
  · unfold Table.sketch
    rw [List.map_map]
    exact hg.titles t ht
  · exact List.mem_map.2 ⟨(c.title, c.defaultValue), List.mem_map.2 ⟨c, hc, rfl⟩, hcolumn.symm⟩

/-- **The edges of a graph join what its keys join.** -/
theorem mem_joins_iff (x : Join) :
    x ∈ g.joins ↔ x ∈ (keysOf g).filterMap (KeySpec.join? g.tables) := by
  obtain ⟨ofEdges, ofColumns, he, hedges, hcolumns, hall⟩ := keysOf_eq g
  unfold Graph.joins
  rw [List.mem_filterMap, List.mem_filterMap, he]
  constructor
  · rintro ⟨e, hm, hx⟩
    obtain ⟨k, hk, hjoins, hkey⟩ := hg.exists_edgeKey hm
    obtain ⟨k', hk', hcanonical⟩ := hall k (List.mem_filterMap.2 ⟨e, hm, hk⟩)
    have hsame := hg.join?_of_canonical (hg.joinsIn_of_mem_edgeKeys (hedges hk')) hjoins hcanonical
    exact ⟨k', List.mem_append_left _ hk', hsame.trans (hkey.trans hx)⟩
  · rintro ⟨k, hk, hx⟩
    rcases List.mem_append.1 hk with hk | hk
    · obtain ⟨e, hm, hk⟩ := List.mem_filterMap.1 (hedges hk)
      obtain ⟨k', hk', -, hkey⟩ := hg.exists_edgeKey hm
      obtain rfl := Option.some.inj (hk.symm.trans hk')
      exact ⟨e, hm, hkey.symm.trans hx⟩
    · rw [hg.join?_of_mem_columnKeys (hcolumns hk)] at hx
      cases hx

/-! ## Carried keys -/

omit hg in
/-- Keys that are added to tables are all carried. -/
theorem carriedKeys_added {s : Settings} (hi : inlinesKeys s = false) :
    carriedKeys s g = keysOf g := by
  have hinside : ∀ t, insideKeys s (keysOf g) t = [] := by
    intro t
    unfold insideKeys
    rw [hi]
    rfl
  have htable : ∀ t ∈ g.tables, tableKeys s g t = [] := by
    intro t _
    have hnone : ∀ c, clauseKey s (keyOfColumn? [] c) = none := by
      intro c
      unfold clauseKey
      split <;> rfl
    unfold tableKeys
    rw [hinside, List.filterMap_eq_nil_iff.2 fun c _ => hnone c, ite_self]
    rfl
  unfold carriedKeys
  rw [List.flatMap_eq_nil_iff.2 htable, hi]
  rfl

omit hg in
/-- What is carried depends on the dialect and on where keys stand. -/
theorem carriedKeys_congr {s s' : Settings} (hd : s'.dialect = s.dialect)
    (hi : inlinesKeys s' = inlinesKeys s) : carriedKeys s' g = carriedKeys s g := by
  unfold carriedKeys tableKeys clauseKey insideKeys
  simp only [hd, hi]

omit hg in
/-- No key is carried that the graph does not have. -/
theorem carriedKeys_subset (s : Settings) : carriedKeys s g ⊆ keysOf g := by
  intro k hk
  unfold carriedKeys tableKeys clauseKey at hk
  rcases List.mem_append.1 hk with hk | hk
  · obtain ⟨t, -, hk⟩ := List.mem_flatMap.1 hk
    rcases List.mem_append.1 hk with hk | hk
    · obtain ⟨c, -, hk⟩ := List.mem_filterMap.1 hk
      split at hk
      · cases hk
      · exact mem_keysOf_of_keyOfColumn? hk
    · unfold insideKeys at hk
      split at hk
      · split at hk
        · exact (List.mem_filter.1 hk).1
        · cases hk
      · cases hk
  · split at hk
    · cases hk
    · exact hk

/-- Keys behind the columns are all carried. -/
theorem mem_carriedKeys_behind {s : Settings} (hs : s.dialect = .mysql) {k : KeySpec}
    (hk : k ∈ keysOf g) : k ∈ carriedKeys s g := by
  cases hi : inlinesKeys s with
  | false =>
    rw [carriedKeys_added hi]
    exact hk
  | true =>
    obtain ⟨t, ht, c, -, hsource, -⟩ := hg.source_of_mem_keysOf hk
    refine List.mem_append_left _ (List.mem_flatMap.2 ⟨t, ht, List.mem_append_right _ ?_⟩)
    rw [if_pos hs]
    unfold insideKeys
    rw [hi, if_pos rfl]
    exact List.mem_filter.2 ⟨hk, by rw [hsource]; exact beq_self_eq_true _⟩

omit hg in
/-- Keys with their columns are carried one for each column. -/
theorem mem_carriedKeys_inside {s : Settings} (hi : inlinesKeys s = true)
    (hs : s.dialect ≠ .mysql) (k : KeySpec) : k ∈ carriedKeys s g ↔ ∃ t ∈ g.tables,
      ∃ c ∈ t.columns, keyOfColumn? ((keysOf g).filter (·.sourceTable == t.name)) c = some k := by
  unfold carriedKeys tableKeys clauseKey insideKeys
  simp only [hi, hs, if_true, if_false, List.append_nil, List.mem_flatMap, List.mem_filterMap]

/-- **A key that no edge states is carried**, since it is the last of its column. -/
theorem keyOfColumn?_columnKey {ofEdges ofColumns : List KeySpec}
    (he : keysOf g = ofEdges ++ ofColumns) (hcolumns : ofColumns ⊆ columnKeys g) {k : KeySpec}
    (hk : k ∈ ofColumns) : ∃ t ∈ g.tables, ∃ c ∈ t.columns,
      keyOfColumn? ((keysOf g).filter (·.sourceTable == t.name)) c = some k := by
  have hsource : ∀ k ∈ ofColumns, ∃ t ∈ g.tables, ∃ c ∈ t.columns,
      KeySpec.ofColumn? t c = some k ∧ k.sourceTable = t.name ∧ k.sourceColumn = c.title := by
    intro k hk
    obtain ⟨t, ht, h⟩ := List.mem_flatMap.1 (hcolumns hk)
    obtain ⟨c, hc, h⟩ := List.mem_filterMap.1 h
    refine ⟨t, ht, c, hc, h, ?_⟩
    obtain ⟨f, -, rfl⟩ := Option.map_eq_some_iff.1 h
    exact ⟨rfl, rfl⟩
  obtain ⟨t, ht, c, hc, hkey, htable, hcolumn⟩ := hsource k hk
  refine ⟨t, ht, c, hc, ?_⟩
  have hown : k ∈ (ofColumns.filter (·.sourceTable == t.name)).reverse :=
    List.mem_reverse.2 (List.mem_filter.2 ⟨hk, by rw [htable]; exact beq_self_eq_true _⟩)
  unfold keyOfColumn?
  rw [he, List.filter_append, List.reverse_append, List.find?_append]
  cases hf : (ofColumns.filter (·.sourceTable == t.name)).reverse.find?
      (·.sourceColumn == c.title) with
  | none =>
    exact absurd (by rw [hcolumn]; exact beq_self_eq_true _) (List.find?_eq_none.1 hf k hown)
  | some k' =>
    have hm := List.mem_reverse.1 (List.mem_of_find?_eq_some hf)
    obtain ⟨hk', hname⟩ := List.mem_filter.1 hm
    have htitle := List.find?_some hf
    obtain ⟨t', ht', c', hc', hkey', htable', hcolumn'⟩ := hsource k' hk'
    obtain rfl := hg.table_ext ht' ht
      (congrArg Text.lower (htable'.symm.trans (eq_of_beq hname)))
    obtain rfl := hg.column_ext ht' hc' hc
      (congrArg Text.lower (hcolumn'.symm.trans (eq_of_beq htitle)))
    rw [Option.some_or, ← hkey, ← hkey']

omit hg in
/-- What stands with a column is a key of it. -/
theorem source_of_keyOfColumn? {keys : List KeySpec} {t : Table} {c : Column} {k : KeySpec}
    (h : keyOfColumn? (keys.filter (·.sourceTable == t.name)) c = some k) :
    k ∈ keys ∧ k.sourceTable = t.name ∧ k.sourceColumn = c.title := by
  obtain ⟨hm, hname⟩ := List.mem_filter.1 (List.mem_reverse.1 (List.mem_of_find?_eq_some h))
  have htitle := List.find?_some h
  exact ⟨hm, eq_of_beq hname, eq_of_beq htitle⟩

/-- The one key of a column is carried. -/
theorem mem_carriedKeys_of_oneKeyEach (hone : g.OneKeyEach) {s : Settings}
    (hi : inlinesKeys s = true) (hs : s.dialect ≠ .mysql) {k : KeySpec} (hk : k ∈ keysOf g) :
    k ∈ carriedKeys s g := by
  obtain ⟨t, ht, c, hc, htable, hcolumn⟩ := hg.source_of_mem_keysOf hk
  have hown : k ∈ ((keysOf g).filter (·.sourceTable == t.name)).reverse :=
    List.mem_reverse.2 (List.mem_filter.2 ⟨hk, by rw [htable]; exact beq_self_eq_true _⟩)
  refine (mem_carriedKeys_inside hi hs k).2 ⟨t, ht, c, hc, ?_⟩
  cases hf : keyOfColumn? ((keysOf g).filter (·.sourceTable == t.name)) c with
  | none =>
    exact absurd (by rw [hcolumn]; exact beq_self_eq_true _) (List.find?_eq_none.1 hf k hown)
  | some k' =>
    obtain ⟨hk', htable', hcolumn'⟩ := source_of_keyOfColumn? hf
    rw [hone k' hk' k hk (htable'.trans htable.symm) (hcolumn'.trans hcolumn.symm)]

omit hg in
/-- If columns hold all keys, each of them has one at most. -/
theorem oneKeyEach_of_carried {s : Settings} (hi : inlinesKeys s = true) (hs : s.dialect ≠ .mysql)
    (h : keysOf g ⊆ carriedKeys s g) : g.OneKeyEach := by
  intro k hk k' hk' htable hcolumn
  obtain ⟨t, -, c, -, hf⟩ := (mem_carriedKeys_inside hi hs k).1 (h hk)
  obtain ⟨t', -, c', -, hf'⟩ := (mem_carriedKeys_inside hi hs k').1 (h hk')
  obtain ⟨-, hname, htitle⟩ := source_of_keyOfColumn? hf
  obtain ⟨-, hname', htitle'⟩ := source_of_keyOfColumn? hf'
  have htables : t.name = t'.name := hname.symm.trans (htable.trans hname')
  have htitles : c.title = c'.title := htitle.symm.trans (hcolumn.trans htitle')
  unfold keyOfColumn? at hf hf'
  rw [htables, htitles] at hf
  exact Option.some.inj (hf.symm.trans hf')

/-- A text that carries what all edges join carries all keys. -/
theorem carried_of_joins {s : Settings} (hi : inlinesKeys s = true) (hs : s.dialect ≠ .mysql)
    (h : ∀ x ∈ g.joins, x ∈ (carriedKeys s g).filterMap (KeySpec.join? g.tables)) :
    keysOf g ⊆ carriedKeys s g := by
  obtain ⟨ofEdges, ofColumns, he, hedges, hcolumns, -⟩ := keysOf_eq g
  intro k hk
  rw [he] at hk
  rcases List.mem_append.1 hk with hm | hm
  · -- what the edge joins is carried by some key, which is this one
    have hjoin := hg.join?_of_joinsIn (hg.joinsIn_of_mem_edgeKeys (hedges hm))
    have hx := (hg.mem_joins_iff _).2 (List.mem_filterMap.2 ⟨k, he ▸ hk, hjoin⟩)
    obtain ⟨k', hk', hjoin'⟩ := List.mem_filterMap.1 (h _ hx)
    have hkeys' := carriedKeys_subset s hk'
    have hjoins' : JoinsIn g k' := by
      rw [he] at hkeys'
      rcases List.mem_append.1 hkeys' with hm' | hm'
      · exact hg.joinsIn_of_mem_edgeKeys (hedges hm')
      · rw [hg.join?_of_mem_columnKeys (hcolumns hm')] at hjoin'
        cases hjoin'
    rw [hg.join?_of_joinsIn hjoins'] at hjoin'
    obtain ⟨hst, hsc, htt, htc⟩ := Join.mk.inj (Option.some.inj hjoin')
    have hcanonical : k'.canonical = k.canonical := by
      unfold KeySpec.canonical
      rw [hst, hsc, htt, htc]
    exact List.inj_on_of_nodup_map (keysOf_nodup g) hkeys' (he ▸ hk) hcanonical ▸ hk'
  · exact (mem_carriedKeys_inside hi hs k).2 (hg.keyOfColumn?_columnKey he hcolumns hm)

/-- **When a text carries all foreign keys**: they are not held by columns, or each column has one
at most. -/
theorem carries_all_iff (s : Settings) :
    (∀ x, x ∈ (carriedKeys s g).filterMap (KeySpec.join? g.tables) ↔ x ∈ g.joins) ↔
      inlinesKeys s = false ∨ s.dialect = .mysql ∨ g.OneKeyEach := by
  have hall : keysOf g ⊆ carriedKeys s g →
      ∀ x, x ∈ (carriedKeys s g).filterMap (KeySpec.join? g.tables) ↔ x ∈ g.joins := by
    intro h x
    rw [hg.mem_joins_iff, List.mem_filterMap, List.mem_filterMap]
    exact ⟨fun ⟨k, hk, hx⟩ => ⟨k, carriedKeys_subset s hk, hx⟩, fun ⟨k, hk, hx⟩ => ⟨k, h hk, hx⟩⟩
  by_cases hs : s.dialect = .mysql
  · exact iff_of_true (hall fun _ hk => hg.mem_carriedKeys_behind hs hk) (.inr (.inl hs))
  cases hi : inlinesKeys s with
  | false => exact iff_of_true (hall fun _ hk => carriedKeys_added hi ▸ hk) (.inl rfl)
  | true =>
    constructor
    · intro h
      have hcarried := hg.carried_of_joins hi hs fun x hx => (h x).2 hx
      exact .inr (.inr (oneKeyEach_of_carried hi hs hcarried))
    · rintro (h | h | hone)
      · cases h
      · exact absurd h hs
      · exact hall fun _ hk => hg.mem_carriedKeys_of_oneKeyEach hone hi hs hk

end Graph.Keyed

end DdlGraph
