import DdlGraph.Proofs.Rebuild
import DdlGraph.Proofs.WellFormed

/-!
# A canonical graph comes back from its text

The draft of the statements of a graph has its tables, and each foreign key finds the target that it
had. The edges are then those of the graph.

* `Graph.Restores`: what comes back;
* `resolves_pending`: the foreign keys of all columns;
* `recover_script`: a canonical graph comes back from its PostgreSQL text, for both places of foreign
  keys.
-/

namespace DdlGraph

open Sql Ddl

/-! ## What comes back -/

/-- The same column, but for the order of its constraints. -/
def Column.Same (c c' : Column) : Prop :=
  c' = { c with constraints := c'.constraints } ∧ c'.constraints.Perm c.constraints

/-- The same table, but for the order of constraints in its columns. -/
def Table.Same (t t' : Table) : Prop :=
  t' = { t with columns := t'.columns } ∧ List.Forall₂ Column.Same t.columns t'.columns

/-- The edge joins the same columns. -/
def Edge.SameEnds (e e' : Edge) : Prop :=
  e'.source = e.source ∧ e'.sourceColumn = e.sourceColumn ∧
    e'.target = e.target ∧ e'.targetColumn = e.targetColumn

/-- The key of the edge from an enumeration to a column of it. -/
def enumKey (e : Enumeration) (t : Table) (c : Column) : String :=
  edgeKey e.id (sourceHandleFor e.name) t.id (targetHandleFor c.title)

/-- **Restored graph**: the tables and enumerations of `g`, its foreign keys, and an edge for each
column of an enumeration. -/
structure Graph.Restores (g g' : Graph) : Prop where
  tables : List.Forall₂ Table.Same g.tables g'.tables
  enums : g'.enums = g.enums
  keys : ∀ key, key ∈ g'.foreignKeys.map Edge.key ↔ key ∈ g.foreignKeys.map Edge.key
  ends : ∀ e' ∈ g'.foreignKeys, ∃ e ∈ g.foreignKeys, e.SameEnds e'
  edges : ∀ key, key ∈ g'.edges.map Edge.key ↔ key ∈ g.foreignKeys.map Edge.key ∨
    ∃ t ∈ g.tables, ∃ c ∈ t.columns, ∃ e ∈ g.enums, c.dataType = e.columnType ∧ key = enumKey e t c

theorem CanonicalType.primary_of_autoIncrement {g : Graph} {c : Column} (h : CanonicalType g c)
    (hu : c.autoIncrement = true) : c.isPrimary = true := by
  cases h with
  | counting mem params up primary => exact primary
  | enumeration e mem type params up => exact absurd hu (up ▸ Bool.false_ne_true)
  | plain base n mem type params up => exact absurd hu (up ▸ Bool.false_ne_true)
  | double type params up => exact absurd hu (up ▸ Bool.false_ne_true)

namespace Recovery.Draft

/-! ## Columns before their foreign keys -/

theorem has_iff {c : Column} {k : Constraint} : c.has k = true ↔ k ∈ c.constraints :=
  List.contains_iff_mem

theorem mem_constraintsOf {serial : Bool} {d : ColumnDef} {k : Constraint} :
    k ∈ constraintsOf serial d ↔ match k with
      | .primary => serial = true ∨ d.primary = true
      | .unique => d.unique = true
      | .notNull => d.notNull = true
      | .index => False := by
  unfold constraintsOf
  cases k <;> cases serial <;> cases d.primary <;> cases d.unique <;> cases d.notNull <;> simp

/-- A column that differs from another in its constraints does so with one more of them. -/
theorem addConstraint_over {b c : Column} (h : c = { b with constraints := c.constraints })
    (k : Constraint) :
    c.addConstraint k = { b with constraints := (c.addConstraint k).constraints } := by
  unfold Column.addConstraint
  split
  · exact h
  · dsimp only
    rw [h]

/-- Only the constraints of a column change before its foreign key is set. -/
theorem plainColumn_eq (s : Settings) (g : Graph) (r : Reading) (t : Table) (c : Column) :
    plainColumn s g r t c = { builtColumn s g r t c with
      constraints := (plainColumn s g r t c).constraints } := by
  have hkeyed : keyedColumn s g r t c = { builtColumn s g r t c with
      constraints := (keyedColumn s g r t c).constraints } := by
    unfold keyedColumn
    split
    · exact addConstraint_over rfl _
    · rfl
  unfold plainColumn touched
  split
  · exact addConstraint_over hkeyed _
  · exact hkeyed

theorem nodup_plainColumn (s : Settings) (g : Graph) (r : Reading) (t : Table) (c : Column) :
    (plainColumn s g r t c).constraints.Nodup := by
  have hbuilt : (builtColumn s g r t c).constraints.Nodup := constraintsOf_nodup _ _
  have hkeyed : (keyedColumn s g r t c).constraints.Nodup := by
    unfold keyedColumn
    split
    · exact Column.nodup_addConstraint _ hbuilt
    · exact hbuilt
  unfold plainColumn touched
  split
  · exact Column.nodup_addConstraint _ hkeyed
  · exact hkeyed

/-- **Fitting reading**: it says of each column what its type says, and has only primary keys for
serial. -/
structure Reading.Fits (r : Reading) (s : Settings) (g : Graph) : Prop where
  typed : ∀ t ∈ g.tables, ∀ c ∈ t.columns, ∀ keyHere,
    TypeSays (typeClause s g c keyHere) c (r.typed c keyHere)
  serial : ∀ t ∈ g.tables, ∀ c ∈ t.columns, (r.choice t c).serial = true → c.isPrimary = true

theorem Reading.fits_postgres {s : Settings} (hs : s.dialect = .postgresql) {g : Graph}
    (hg : g.Canonical) : Reading.postgres.Fits s g where
  typed _ _ c _ keyHere := typeSays_postgres hs g c keyHere
  serial t ht c hc := (hg.columns t ht c hc).type.primary_of_autoIncrement

section
variable {g : Graph} (hg : g.Canonical) {t : Table} (ht : t ∈ g.tables) {c : Column}
  (hc : c ∈ t.columns)
include hg ht hc

/-- The table states a primary key with the column. -/
theorem mem_primaryKey_iff (s : Settings) (typed : Column → Bool → ColumnDef) :
    c.title ∈ (readTable s g typed t).primaryKey ↔
      promotesKey t (insideKeys s (keysOf g) t) = true ∧ c.isPrimary = true := by
  unfold readTable tableDef
  dsimp only
  split
  · rename_i hp
    have htitle : c.title ∈ (primaryColumns t).map (·.title) ↔ c.isPrimary = true := by
      constructor
      · intro hm
        obtain ⟨c', hc', he⟩ := List.mem_map.1 hm
        obtain ⟨hc', hprimary⟩ := List.mem_filter.1 hc'
        obtain rfl := List.inj_on_of_nodup_map (hg.distinct.titles t ht) hc' hc he
        exact hprimary
      · exact fun h => List.mem_map.2 ⟨c, List.mem_filter.2 ⟨hc, h⟩, rfl⟩
    rw [htitle]
    exact (and_iff_right hp).symm
  · rename_i hp
    exact ⟨fun h => absurd h List.not_mem_nil, fun h => absurd h.1 hp⟩

theorem mem_indexSites_iff : (t.id, c.title) ∈ (indexSites g).map (fun x => (x.1.id, x.2.title)) ↔
    c.has .index = true ∧ c.isPrimary = false := by
  have hindexed : c ∈ indexedColumns t ↔ c.has .index = true ∧ c.isPrimary = false := by
    unfold indexedColumns
    rw [List.mem_filter, Bool.and_eq_true, Bool.not_eq_true']
    exact and_iff_right hc
  rw [← hindexed]
  constructor
  · intro hm
    obtain ⟨x, hx, he⟩ := List.mem_map.1 hm
    obtain ⟨t', ht', hx⟩ := List.mem_flatMap.1 hx
    obtain ⟨c', hc', rfl⟩ := List.mem_map.1 hx
    obtain ⟨hid, htitle⟩ := Prod.mk.inj he
    obtain rfl := List.inj_on_of_nodup_map hg.tableIds ht' ht hid
    have hcm := (List.mem_filter.1 hc').1
    obtain rfl := List.inj_on_of_nodup_map (hg.distinct.titles t' ht') hcm hc htitle
    exact hc'
  · intro hi
    exact List.mem_map.2 ⟨(t, c), List.mem_flatMap.2 ⟨t, ht, List.mem_map.2 ⟨c, hi, rfl⟩⟩, rfl⟩

/-- **The constraints of a column** are those that it had. -/
theorem mem_plainColumn {s : Settings} {r : Reading} (hr : r.Fits s g) (k : Constraint) :
    k ∈ (plainColumn s g r t c).constraints ↔ k ∈ c.constraints := by
  have hkeyed : k ∈ (keyedColumn s g r t c).constraints ↔
      (k = .primary ∧ c.title ∈ (readTable s g r.typed t).primaryKey) ∨
        k ∈ (builtColumn s g r t c).constraints := by
    unfold keyedColumn
    split
    · rename_i hm
      rw [Column.mem_addConstraint, and_iff_left hm]
    · rename_i hm
      rw [or_iff_right fun h => hm h.2]
  have hplain : k ∈ (plainColumn s g r t c).constraints ↔
      (k = .index ∧ (t.id, c.title) ∈ (indexSites g).map fun x => (x.1.id, x.2.title)) ∨
        k ∈ (keyedColumn s g r t c).constraints := by
    unfold plainColumn touched
    split
    · rename_i hm
      rw [Column.mem_addConstraint, and_iff_left hm]
    · rename_i hm
      rw [or_iff_right fun h => hm h.2]
  have hsaid := hr.typed t ht c hc (c.isPrimary && !promotesKey t (insideKeys s (keysOf g) t))
  have hprimary : (readColumn s g r.typed t c).primary =
      (c.isPrimary && !promotesKey t (insideKeys s (keysOf g) t)) := primary_columnDef _ hsaid
  have hunique : (readColumn s g r.typed t c).unique = c.has .unique := unique_columnDef _ hsaid
  have hnotNull : (readColumn s g r.typed t c).notNull = c.has .notNull := notNull_columnDef _ hsaid
  have hbuilt : (builtColumn s g r t c).constraints =
      constraintsOf (r.choice t c).serial (readColumn s g r.typed t c) := rfl
  rw [hplain, hkeyed, hbuilt, mem_constraintsOf, mem_indexSites_iff hg ht hc,
    mem_primaryKey_iff hg ht hc, ← has_iff]
  have hindex := (hg.columns t ht c hc).index
  cases k with
  | primary =>
    have hhas : c.has .primary = c.isPrimary := rfl
    simp only [reduceCtorEq, false_and, false_or, true_and, hprimary, hhas, Bool.and_eq_true,
      Bool.not_eq_true']
    constructor
    · rintro (h | h | h)
      · exact h.2
      · exact hr.serial t ht c hc h
      · exact h.1
    · intro h
      cases hp : promotesKey t (insideKeys s (keysOf g) t) with
      | true => exact .inl ⟨rfl, h⟩
      | false => exact .inr (.inr ⟨h, rfl⟩)
  | unique => simp only [reduceCtorEq, false_and, false_or, hunique]
  | notNull => simp only [reduceCtorEq, false_and, false_or, hnotNull]
  | index =>
    simp only [reduceCtorEq, false_and, or_false, true_and]
    exact ⟨fun h => h.1, fun h => ⟨h, hindex h⟩⟩

theorem perm_plainColumn {s : Settings} {r : Reading} (hr : r.Fits s g) :
    (plainColumn s g r t c).constraints.Perm c.constraints :=
  (List.perm_ext_iff_of_nodup (nodup_plainColumn s g r t c)
    (hg.columns t ht c hc).constraints).2 (mem_plainColumn hg ht hc hr)

/-- **A column with its foreign key** is the one of the graph, but for the order of its
constraints. -/
theorem same_plainColumn {s : Settings} (hs : s.dialect = .postgresql) :
    c.Same { plainColumn s g .postgres t c with foreignKey := c.foreignKey } := by
  have hr := Reading.fits_postgres hs hg
  have hsaid := hr.typed t ht c hc (c.isPrimary && !promotesKey t (insideKeys s (keysOf g) t))
  have hdefault : (readColumn s g postgresTyped t c).defaultValue = c.defaultValue :=
    defaultValue_columnDef _ hsaid
  have hup : (c.autoIncrement || (readColumn s g postgresTyped t c).autoIncrement) =
      c.autoIncrement := Bool.or_false _
  refine ⟨?_, perm_plainColumn hg ht hc hr⟩
  dsimp only
  rw [plainColumn_eq]
  unfold builtColumn columnOf Reading.postgres
  dsimp only
  rw [hdefault, hup]
  rfl

end

/-! ## Foreign keys -/

/-- What a foreign key does to the column that has it. -/
def withKey (c x : Column) : Column :=
  { x with foreignKey := c.foreignKey }

/-- The link joins what the edge joins. -/
def JoinsAs (e : Edge) (l : Link) : Prop :=
  l.source = e.source ∧ l.sourceColumn = e.sourceColumn ∧ l.target = e.target ∧
    l.targetColumn = e.targetColumn

theorem JoinsAs.key_eq {e : Edge} {l : Link} (h : JoinsAs e l) : l.key = e.key := by
  obtain ⟨hs, hsc, ht, htc⟩ := h
  unfold Link.key Edge.key
  rw [hs, hsc, ht, htc]

/-- The place of a foreign key in a draft. -/
def siteOf (p : PendingKey) : String × String :=
  (p.tableId, p.column)

/-- Every foreign key of the graph has its target in it. -/
def AllResolved (g : Graph) : Prop :=
  ∀ t ∈ g.tables, ∀ c ∈ t.columns, ∀ k ∈ c.foreignKey, k.resolved = true

/-- **What foreign keys at some sites do**: their columns get them, and the links are those of the
edges that start there. -/
structure Resolves (g : Graph) (sites : List (String × String)) (F : Table → Column → Column)
    (d d' : Draft) (links : List Link) : Prop where
  rebuilt : Rebuilt g (touched sites withKey F) d'
  enums : d'.enums = d.enums
  uses : d'.enumUses = d.enumUses
  sound : ∀ l ∈ links, l.enumLink = false ∧ ∃ e ∈ g.foreignKeys, JoinsAs e l
  complete : ∀ e ∈ g.foreignKeys, (e.source, e.sourceColumn) ∈ sites → ∃ l ∈ links, JoinsAs e l
  warnings : AllResolved g → d'.warnings = d.warnings

theorem Resolves.nil {g : Graph} {F : Table → Column → Column} {d : Draft} (h : Rebuilt g F d) :
    Resolves g [] F d d [] where
  rebuilt := by
    rw [touched_nil]
    exact h
  enums := rfl
  uses := rfl
  sound := fun _ hl => absurd hl List.not_mem_nil
  complete := fun _ _ hm => absurd hm List.not_mem_nil
  warnings := fun _ => rfl

theorem Resolves.cons {g : Graph} {site : String × String} {sites : List (String × String)}
    {F : Table → Column → Column} {d d' d'' : Draft} {ls ls' : List Link}
    (h : Resolves g [site] F d d' ls) (h' : Resolves g sites (touched [site] withKey F) d' d'' ls') :
    Resolves g (site :: sites) F d d'' (ls ++ ls') where
  rebuilt := by
    rw [← touched_cons (u := withKey) (fun _ _ => rfl) site sites F]
    exact h'.rebuilt
  enums := h'.enums.trans h.enums
  uses := h'.uses.trans h.uses
  sound := by
    intro l hl
    rcases List.mem_append.1 hl with hl | hl
    · exact h.sound l hl
    · exact h'.sound l hl
  complete := by
    intro e he hm
    rcases List.mem_cons.1 hm with hm | hm
    · obtain ⟨l, hl, hj⟩ := h.complete e he (List.mem_singleton.2 hm)
      exact ⟨l, List.mem_append_left _ hl, hj⟩
    · obtain ⟨l, hl, hj⟩ := h'.complete e he hm
      exact ⟨l, List.mem_append_right _ hl, hj⟩
  warnings := fun hall => (h'.warnings hall).trans (h.warnings hall)

theorem map_text_bind {action : Option String} (h : ∀ text ∈ action, IsAction text) :
    (action.bind ReferentialAction.ofText?).map ReferentialAction.text = action := by
  cases action with
  | none => rfl
  | some text =>
    obtain ⟨a, rfl⟩ := h text rfl
    rw [Option.bind_some, ReferentialAction.ofText?_text]
    rfl

theorem target?_eq_some {d : Draft} {p : PendingKey} {id : String} {t : Table} {c : Column}
    (hid : d.tableId? p.reference.table = some id) (ht : tableById? d.tables id = some t)
    (hc : t.findColumn? p.targetColumn = some c) : d.target? p = some (t, c) := by
  unfold target?
  simp only [hid, ht, hc, Option.bind_eq_bind, Option.bind_some, Option.pure_def]

section
variable {g : Graph} (hg : g.Canonical) {t : Table} (ht : t ∈ g.tables) {c : Column}
  (hc : c ∈ t.columns) {k : ForeignKey} (hk : c.foreignKey = some k)
  {F : Table → Column → Column} {d : Draft} (h : Rebuilt g F d)
include hg ht hc hk

omit hk in
/-- The edge from a column to the target that it refers to. -/
theorem edge_target {e : Edge} (he : e ∈ g.foreignKeys) (hes : e.source = t.id)
    (hesc : e.sourceColumn = c.title) : ∃ k, c.foreignKey = some k ∧ k.resolved = true ∧
      ∃ t' ∈ g.tables, ∃ c' ∈ t'.columns, k.table = t'.name ∧ k.column = c'.title ∧
        e.target = t'.id ∧ e.targetColumn = c'.title := by
  obtain ⟨u, hu, x, hx, t', ht', c', hc', k, hus, husc, hgt, hgc, hk, htable, hcolumn, hr⟩ :=
    hg.edges e he
  obtain rfl := List.inj_on_of_nodup_map hg.tableIds ht hu (hes.symm.trans hus)
  obtain rfl := hg.column_ext ht hc hx (congrArg Text.lower (hesc.symm.trans husc))
  exact ⟨k, hk, hr, t', ht', c', hc', htable, hcolumn, hgt, hgc⟩

include h

/-- The target of a foreign key is found, if it is in the graph. -/
theorem target?_resolved (hr : k.resolved = true) :
    ∃ t' ∈ g.tables, ∃ c' ∈ t'.columns, k.table = t'.name ∧ k.column = c'.title ∧
      d.target? (pendingOf t c k) = some (t'.mapColumns (F t'), F t' c') := by
  obtain ⟨e, he, hes, hesc⟩ := (hg.keys t ht c hc k hk).resolved hr
  obtain ⟨k', hk', -, t', ht', c', hc', htable, hcolumn, -⟩ := edge_target hg ht hc he hes hesc
  obtain rfl := Option.some.inj (hk.symm.trans hk')
  refine ⟨t', ht', c', hc', htable, hcolumn, ?_⟩
  have hfind := h.findColumn?_eq hg.distinct ht' hc'
  rw [← hcolumn] at hfind
  exact target?_eq_some (h.tableId?_eq hg.distinct ht' (congrArg Text.lower htable))
    (h.tableById?_eq hg.distinct ht') hfind

theorem target?_unresolved (hr : k.resolved = false) : d.target? (pendingOf t c k) = none := by
  have hreference : (pendingOf t c k).reference.table = k.table := rfl
  unfold target?
  rw [hreference]
  cases hid : d.tableId? k.table with
  | none => rfl
  | some id =>
    have hm : (Text.lower k.table, id) ∈ d.tableIds := mem_of_lookup hid
    rw [h.tableIds] at hm
    obtain ⟨t', ht', he⟩ := List.mem_map.1 hm
    obtain ⟨hname, rfl⟩ := Prod.mk.inj he
    have hnone : (t'.mapColumns (F t')).findColumn? (pendingOf t c k).targetColumn = none := by
      rw [Table.findColumn?_mapColumns (h.titles t')]
      exact Option.map_eq_none_iff.2 ((hg.keys t ht c hc k hk).unresolved hr t' ht' hname)
    simp only [h.tableById?_eq hg.distinct ht', hnone, Option.bind_eq_bind, Option.bind_some,
      Option.bind_none]

/-- **A foreign key is as it was**, when its target is looked for. -/
theorem foreignKeyOf_pending :
    foreignKeyOf (pendingOf t c k) (d.target? (pendingOf t c k)) = k := by
  have hdelete : (pendingOf t c k).reference.onDelete.map ReferentialAction.text = k.onDelete :=
    map_text_bind (hg.keys t ht c hc k hk).onDelete
  have hupdate : (pendingOf t c k).reference.onUpdate.map ReferentialAction.text = k.onUpdate :=
    map_text_bind (hg.keys t ht c hc k hk).onUpdate
  unfold foreignKeyOf
  rw [hdelete, hupdate]
  cases hr : k.resolved with
  | true =>
    obtain ⟨t', ht', c', hc', htable, hcolumn, htarget⟩ := target?_resolved hg ht hc hk h hr
    rw [htarget]
    change ForeignKey.mk t'.name (F t' c').title _ _ true = k
    rw [h.titles, ← htable, ← hcolumn, ← hr]
  | false =>
    rw [target?_unresolved hg ht hc hk h hr]
    change ForeignKey.mk k.table k.column _ _ false = k
    rw [← hr]

/-- **One foreign key** is set in its column, and its link is that of the edge from there. -/
theorem resolves_pending (links : List Link) :
    ∃ d' ls, resolveKey (d, links) (pendingOf t c k) = (d', links ++ ls) ∧
      Resolves g [siteOf (pendingOf t c k)] F d d' ls := by
  have hsource : d.source? (pendingOf t c k) = some (F t c) := by
    unfold source?
    change (tableById? d.tables t.id).bind (·.column? c.title) = _
    rw [h.tableById?_eq hg.distinct ht]
    exact h.column?_eq hg.distinct ht hc
  have hset : setKey c.title k (t.mapColumns (F t)) =
      (t.mapColumns (F t)).updateColumn c.title (withKey c) := by
    unfold setKey
    rw [h.findColumn?_eq hg.distinct ht hc]
    dsimp only
    rw [h.titles t c, ← hk]
    rfl
  have htouch := h.touch hg.distinct ht hc (u := withKey) (fun _ _ => rfl) hset
  rw [resolveKey_eq, hsource, foreignKeyOf_pending hg ht hc hk h]
  dsimp only
  cases hr : k.resolved with
  | true =>
    obtain ⟨t', ht', c', hc', htable, hcolumn, htarget⟩ := target?_resolved hg ht hc hk h hr
    rw [htarget]
    have hjoins : ∀ e ∈ g.foreignKeys, e.source = t.id → e.sourceColumn = c.title →
        JoinsAs e (linkOf (pendingOf t c k) (F t c) (t'.mapColumns (F t'), F t' c')) := by
      intro e he hes hesc
      obtain ⟨k', hk', -, u, hu, x, hx, hut, hxc, hgt, hgc⟩ := edge_target hg ht hc he hes hesc
      obtain rfl := Option.some.inj (hk.symm.trans hk')
      obtain rfl := hg.table_ext ht' hu (congrArg Text.lower (htable.symm.trans hut))
      have htitle : (F t' c').title = c'.title := h.titles t' c'
      exact ⟨hes.symm, hesc.symm, hgt.symm, (htitle.trans (hcolumn.symm.trans hxc)).trans hgc.symm⟩
    refine ⟨_, [linkOf (pendingOf t c k) (F t c) (t'.mapColumns (F t'), F t' c')], rfl, ?_⟩
    constructor
    · exact htouch
    · rfl
    · rfl
    · intro l hl
      obtain rfl := List.mem_singleton.1 hl
      obtain ⟨e, he, hes, hesc⟩ := (hg.keys t ht c hc k hk).resolved hr
      exact ⟨rfl, e, he, hjoins e he hes hesc⟩
    · intro e he hm
      obtain ⟨hes, hesc⟩ := Prod.mk.inj (List.mem_singleton.1 hm)
      exact ⟨_, .head _, hjoins e he hes hesc⟩
    · exact fun _ => rfl
  | false =>
    rw [target?_unresolved hg ht hc hk h hr]
    refine ⟨_, [], by rw [List.append_nil], ?_⟩
    constructor
    · exact htouch.mono rfl rfl
    · rfl
    · rfl
    · exact fun l hl => absurd hl List.not_mem_nil
    · intro e he hm
      obtain ⟨hes, hesc⟩ := Prod.mk.inj (List.mem_singleton.1 hm)
      obtain ⟨k', hk', hr', -⟩ := edge_target hg ht hc he hes hesc
      obtain rfl := Option.some.inj (hk.symm.trans hk')
      exact absurd hr' (hr ▸ Bool.false_ne_true)
    · exact fun hall => absurd (hall t ht c hc k hk) (hr ▸ Bool.false_ne_true)

end

section
variable {g : Graph} (hg : g.Canonical)
include hg

/-- **All foreign keys** that wait are set, one after the other. -/
theorem foldl_resolveKey_canonical {pending : List PendingKey}
    (hp : ∀ p ∈ pending, IsPending g p) {F : Table → Column → Column} {d : Draft}
    (h : Rebuilt g F d) (links : List Link) :
    ∃ d' ls, pending.foldl resolveKey (d, links) = (d', links ++ ls) ∧
      Resolves g (pending.map siteOf) F d d' ls := by
  induction pending generalizing F d links with
  | nil => exact ⟨d, [], by rw [List.append_nil]; rfl, .nil h⟩
  | cons p pending ih =>
    obtain ⟨t, ht, c, hc, k, hk, rfl⟩ := hp p (.head _)
    obtain ⟨d₁, ls₁, he₁, h₁⟩ := resolves_pending hg ht hc hk h links
    obtain ⟨d₂, ls₂, he₂, h₂⟩ := ih (fun p hm => hp p (.tail _ hm)) h₁.rebuilt (links ++ ls₁)
    refine ⟨d₂, ls₁ ++ ls₂, ?_, h₁.cons h₂⟩
    rw [List.foldl_cons, he₁, he₂, List.append_assoc]

omit hg in
/-- Each column has its foreign key in the end. -/
theorem touched_withKey {sites : List (String × String)}
    (hsites : ∀ t ∈ g.tables, ∀ c ∈ t.columns, c.foreignKey.isSome → (t.id, c.title) ∈ sites)
    (s : Settings) (r : Reading) {t : Table} (ht : t ∈ g.tables) {c : Column} (hc : c ∈ t.columns) :
    touched sites withKey (plainColumn s g r) t c =
      { plainColumn s g r t c with foreignKey := c.foreignKey } := by
  unfold touched
  split
  · rfl
  · rename_i hn
    have hnone : c.foreignKey = none :=
      Option.not_isSome_iff_eq_none.1 fun hsome => hn (hsites t ht c hc hsome)
    rw [hnone, plainColumn_eq]
    rfl

/-- **The tables** are those of the graph in the end. -/
theorem tables_same {s : Settings} (hs : s.dialect = .postgresql) {sites : List (String × String)}
    (hsites : ∀ t ∈ g.tables, ∀ c ∈ t.columns, c.foreignKey.isSome → (t.id, c.title) ∈ sites)
    {d : Draft} (h : Rebuilt g (touched sites withKey (plainColumn s g .postgres)) d) :
    List.Forall₂ Table.Same g.tables d.tables := by
  rw [h.tables, List.forall₂_map_right_iff, List.forall₂_same]
  intro t ht
  refine ⟨rfl, ?_⟩
  change List.Forall₂ Column.Same t.columns (t.columns.map _)
  rw [List.forall₂_map_right_iff, List.forall₂_same]
  intro c hc
  rw [touched_withKey hsites s .postgres ht hc]
  exact same_plainColumn hg ht hc hs

end

/-! ## Edges -/

/-- A column uses the enumeration of its type. -/
theorem useOf?_eq_some_iff {g : Graph} (hg : g.Canonical) {t : Table} {c : Column}
    (hc : CanonicalColumn g c) {u : EnumUse} : useOf? g t c = some u ↔
      ∃ e ∈ g.enums, c.dataType = e.columnType ∧ u = ⟨e.id, e.name, t.id, c.title⟩ := by
  have hfound : ∀ e ∈ g.enums, c.dataType = e.columnType →
      c.enumName?.bind (enumByName? g.enums) = some e := by
    intro e he htype
    rw [enumName?_columnType htype (hg.enumNamed e he)]
    exact hg.enumByName?_eq he
  unfold useOf?
  constructor
  · intro hu
    obtain ⟨e, he, rfl⟩ := Option.map_eq_some_iff.1 hu
    rcases CanonicalType.cases_enum hc.type with ⟨e', he', htype, -⟩ | hnames
    · obtain rfl := Option.some.inj ((hfound e' he' htype).symm.trans he)
      exact ⟨e', he', htype, rfl⟩
    · rw [hnames.noEnum] at he
      cases he
  · rintro ⟨e, he, htype, rfl⟩
    rw [hfound e he htype]
    rfl

theorem mem_usesOf {g : Graph} (hg : g.Canonical) {u : EnumUse} : u ∈ usesOf g g.tables ↔
    ∃ t ∈ g.tables, ∃ c ∈ t.columns, ∃ e ∈ g.enums,
      c.dataType = e.columnType ∧ u = ⟨e.id, e.name, t.id, c.title⟩ := by
  unfold usesOf
  simp only [List.mem_flatMap, List.mem_filterMap]
  constructor
  · rintro ⟨t, ht, c, hc, hu⟩
    exact ⟨t, ht, c, hc, (useOf?_eq_some_iff hg (hg.columns t ht c hc)).1 hu⟩
  · rintro ⟨t, ht, c, hc, hu⟩
    exact ⟨t, ht, c, hc, (useOf?_eq_some_iff hg (hg.columns t ht c hc)).2 hu⟩

end Recovery.Draft

namespace Recovery

open Draft

theorem mem_keys_reconcileEdges (previous : List Edge) (links : List Link) (key : String) :
    key ∈ (reconcileEdges previous links).map Edge.key ↔ key ∈ links.map Link.key :=
  ((reconcileAfter_keys (stylesByKey previous) [] links).2 key).trans
    (and_iff_left List.not_mem_nil)

theorem reconcileAfter_append (styles : List (String × EdgeStyle)) (seen : List String)
    (ls ls' : List Link) : ∃ seen', reconcileAfter styles seen (ls ++ ls') =
      reconcileAfter styles seen ls ++ reconcileAfter styles seen' ls' := by
  induction ls generalizing seen with
  | nil => exact ⟨seen, rfl⟩
  | cons l ls ih =>
    rw [List.cons_append, reconcileAfter, reconcileAfter]
    split
    · exact ih seen
    · obtain ⟨seen', he⟩ := ih (l.key :: seen)
      exact ⟨seen', congrArg (l.toEdge styles :: ·) he⟩

theorem enumLink_of_mem_reconcileAfter {styles : List (String × EdgeStyle)} {seen : List String}
    {links : List Link} {b : Bool} (h : ∀ l ∈ links, l.enumLink = b) {e : Edge}
    (he : e ∈ reconcileAfter styles seen links) : e.enumLink = b := by
  obtain ⟨l, hl, rfl⟩ := mem_reconcileAfter he
  exact h l hl

/-- The foreign keys of an outcome are made of the links of its foreign keys alone. -/
theorem foreignKeys_ofDraft (previous : Option Graph) (d : Draft) {ls : List Link}
    (hls : ∀ l ∈ ls, l.enumLink = false) (uses : List EnumUse) :
    (Outcome.ofDraft previous d (ls ++ uses.map enumLinkOf)).graph.foreignKeys =
      reconcileEdges (Prior.ofGraph? previous).edges ls := by
  let styles := stylesByKey (Prior.ofGraph? previous).edges
  obtain ⟨seen, he⟩ := reconcileAfter_append styles [] ls (uses.map enumLinkOf)
  have huses : ∀ l ∈ uses.map enumLinkOf, l.enumLink = true := by
    intro l hl
    obtain ⟨u, -, rfl⟩ := List.mem_map.1 hl
    rfl
  change (reconcileAfter styles [] (ls ++ uses.map enumLinkOf)).filter (fun e => !e.enumLink) =
    reconcileAfter styles [] ls
  rw [he, List.filter_append, List.filter_eq_self.2, List.filter_eq_nil_iff.2, List.append_nil]
  · intro e hm
    rw [enumLink_of_mem_reconcileAfter huses hm]
    decide
  · intro e hm
    rw [enumLink_of_mem_reconcileAfter hls hm]
    rfl

/-! ## Outcome -/

/-- The title of a column does not begin an item of another kind, if it is quoted or none of the
two words that do. -/
theorem namesColumn_of_not_word {s : Settings} {title : String}
    (h : s.caseSensitive = true ∨
      Text.sameAscii title "like" = false ∧ Text.sameAscii title "exclude" = false) :
    NamesColumn s title := by
  rcases h with h | ⟨hlike, hexclude⟩
  · exact namesColumn_of_caseSensitive h title
  · unfold NamesColumn
    rcases nameToken_cases s title with ht | ht
    · rw [ht]
      exact ⟨hlike, hexclude⟩
    · rw [ht]
      exact ⟨rfl, rfl⟩

/-- **The outcome of a ready draft** is the graph. -/
theorem restores_of_ready {s : Settings} (hs : s.dialect = .postgresql) {g : Graph}
    (hg : g.Canonical) {d : Draft} (h : Ready s g d) :
    g.Restores (Outcome.ofDraft (some g) d.links.1 d.links.2).graph ∧
      (AllResolved g → (Outcome.ofDraft (some g) d.links.1 d.links.2).warnings = []) := by
  obtain ⟨d', ls, he, hr⟩ :=
    foldl_resolveKey_canonical hg (fun p hp => (h.pending p).1 hp) h.rebuilt []
  have hlinks : d.links = (d', ls ++ (usesOf g g.tables).map enumLinkOf) := by
    unfold links
    rw [he, h.uses]
    rfl
  have hsites : ∀ t ∈ g.tables, ∀ c ∈ t.columns, c.foreignKey.isSome →
      (t.id, c.title) ∈ d.pending.map siteOf := by
    intro t ht c hc hsome
    obtain ⟨k, hk⟩ := Option.isSome_iff_exists.1 hsome
    exact List.mem_map.2 ⟨pendingOf t c k, (h.pending _).2 ⟨t, ht, c, hc, k, hk, rfl⟩, rfl⟩
  have hcomplete : ∀ e ∈ g.foreignKeys, ∃ l ∈ ls, JoinsAs e l := by
    intro e hm
    obtain ⟨t, ht, c, hc, -, -, -, -, k, hes, hesc, -, -, hk, -⟩ := hg.edges e hm
    refine hr.complete e hm ?_
    rw [hes, hesc]
    exact hsites t ht c hc (hk ▸ rfl)
  have hkeys : ∀ key, key ∈ ls.map Link.key ↔ key ∈ g.foreignKeys.map Edge.key := by
    intro key
    rw [List.mem_map, List.mem_map]
    constructor
    · rintro ⟨l, hl, rfl⟩
      obtain ⟨-, e, hm, hj⟩ := hr.sound l hl
      exact ⟨e, hm, hj.key_eq.symm⟩
    · rintro ⟨e, hm, rfl⟩
      obtain ⟨l, hl, hj⟩ := hcomplete e hm
      exact ⟨l, hl, hj.key_eq⟩
  have huses : ∀ key, key ∈ ((usesOf g g.tables).map enumLinkOf).map Link.key ↔
      ∃ t ∈ g.tables, ∃ c ∈ t.columns, ∃ e ∈ g.enums,
        c.dataType = e.columnType ∧ key = enumKey e t c := by
    intro key
    rw [List.map_map, List.mem_map]
    constructor
    · rintro ⟨u, hu, rfl⟩
      obtain ⟨t, ht, c, hc, e, hm, htype, rfl⟩ := (mem_usesOf hg).1 hu
      exact ⟨t, ht, c, hc, e, hm, htype, rfl⟩
    · rintro ⟨t, ht, c, hc, e, hm, htype, rfl⟩
      exact ⟨_, (mem_usesOf hg).2 ⟨t, ht, c, hc, e, hm, htype, rfl⟩, rfl⟩
  have hforeign := foreignKeys_ofDraft (some g) d' (fun l hl => (hr.sound l hl).1)
    (usesOf g g.tables)
  rw [hlinks]
  refine ⟨⟨?_, ?_, fun key => ?_, fun e' he' => ?_, fun key => ?_⟩, fun hall => ?_⟩
  · exact tables_same hg hs hsites hr.rebuilt
  · exact hr.enums.trans h.enums
  · rw [hforeign, mem_keys_reconcileEdges, hkeys]
  · rw [hforeign] at he'
    obtain ⟨l, hl, rfl⟩ := mem_reconcileAfter he'
    obtain ⟨-, e, hm, hs, hsc, ht, htc⟩ := hr.sound l hl
    refine ⟨e, hm, hs, ?_, ht, ?_⟩
    · exact (handleColumn_sourceHandleFor _).trans hsc
    · exact (handleColumn_targetHandleFor _).trans htc
  · change key ∈ (reconcileEdges _ (ls ++ (usesOf g g.tables).map enumLinkOf)).map Edge.key ↔ _
    rw [mem_keys_reconcileEdges, List.map_append, List.mem_append, hkeys, huses]
  · have hwarnings : d'.warnings = [] := (hr.warnings hall).trans h.warnings
    exact congrArg (List.map Warning.message) hwarnings

/-- **Round trip**: a canonical graph comes back from its PostgreSQL text, wherever foreign keys
stand in it, and without a warning if they all have their targets. -/
theorem recover_script {s : Settings} (hs : s.dialect = .postgresql) {g : Graph} (hg : g.Canonical)
    {time : String} (ht : '\n' ∉ time.toList)
    (hn : s.caseSensitive = true ∨ ∀ t ∈ g.tables, ∀ c ∈ t.columns,
      Text.sameAscii c.title "like" = false ∧ Text.sameAscii c.title "exclude" = false)
    (hb : Dialect.detect (script s time g) ≠ .mysql ∨
      (∀ e ∈ g.enums, ∀ v ∈ e.values, '\\' ∉ v.toList) ∧
        ∀ t ∈ g.tables, ∀ c ∈ t.columns, ∀ v ∈ c.defaultValue, '\\' ∉ v.toList) :
    ∃ o, recover (script s time g) (some g) = .ok o ∧ g.Restores o.graph ∧
      (AllResolved g → o.warnings = []) := by
  have hnames : ∀ t ∈ g.tables, ∀ c ∈ t.columns, NamesColumn s c.title :=
    fun t ht c hc => namesColumn_of_not_word (hn.imp_right fun h => h t ht c hc)
  have hreadable := readable_canonical hs hg hnames (hb.imp_left escapesBackslash_eq_false)
  have hstatements := congrArg Script.statements (ofText_script ht hreadable)
  have hready := ready_ofStatements hs hg hstatements
  obtain ⟨hrestores, hwarnings⟩ := restores_of_ready hs hg hready
  have hne : (ofStatements (some g) (Script.ofText (script s time g)).statements).links.1.tables ≠
      [] := by
    intro hnil
    have htables := hrestores.tables
    rw [show (Outcome.ofDraft (some g) _ _).graph.tables = [] from hnil] at htables
    exact hg.nonempty (List.forall₂_nil_right_iff.1 htables)
  exact ⟨_, recover_eq_ok_iff.2 ⟨hne, rfl⟩, hrestores, hwarnings⟩

/-- An enumeration, a key that counts up, and a column that refers to it and has an index. -/
theorem recover_script_orders :
    let g : Graph :=
      { tables := [
          { id := "t1", name := "users", columns := [
              { title := "id", dataType := "integer", constraints := [.primary],
                autoIncrement := true }] },
          { id := "t2", name := "Order", columns := [
              { title := "user", dataType := "integer", constraints := [.notNull, .index],
                foreignKey := some ⟨"users", "id", some "CASCADE", none, true⟩ },
              { title := "state", dataType := "enum_state", defaultValue := some "open" }] }]
        enums := [{ id := "e1", name := "state", values := ["open", "it's paid"] }]
        edges := [
          { id := "k1", source := "t2", sourceHandle := "source-user", target := "t1",
            targetHandle := "target-id", cardinality := .manyToOne }] }
    ∃ o, recover (script { dialect := .postgresql } "now" g) (some g) = .ok o ∧
      g.Restores o.graph ∧ o.warnings = [] := by
  intro g
  have hg : g.Canonical := canonical_ordersGraph
  have hall : AllResolved g := by
    unfold AllResolved
    decide
  have hb : (∀ e ∈ g.enums, ∀ v ∈ e.values, '\\' ∉ v.toList) ∧
      ∀ t ∈ g.tables, ∀ c ∈ t.columns, ∀ v ∈ c.defaultValue, '\\' ∉ v.toList := by
    decide
  obtain ⟨o, ho, hrestores, hwarnings⟩ := recover_script (s := { dialect := .postgresql }) rfl hg
    (show '\n' ∉ "now".toList by decide) (.inl rfl) (.inr hb)
  exact ⟨o, ho, hrestores, hwarnings hall⟩

end Recovery

end DdlGraph
