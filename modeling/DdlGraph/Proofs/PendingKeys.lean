import DdlGraph.Proofs.InertDefaults
import DdlGraph.Proofs.ListedEnums

/-!
# Foreign keys that wait

A foreign key comes in one of three forms: with its column, behind the columns of its table, or
added to the table by a statement of its own. Whatever the form, the phases of a draft note it as
one of its column, and no key is lost on the way. This holds after every graph before.

* `bar_not_mem_slug`, `bar_not_mem_freeId`: new ids have no bar;
* `Laid.addTable`, `Laid.index`, `Laid.alter`: what each phase does to the keys that wait;
* `laid_ofStatements`: after all phases, just the keys that the statements state wait, in their
  order.
-/

namespace DdlGraph

open Sql Ddl

/-! ## Ids without bars -/

theorem bar_not_mem_slugStep {out : List Char} (h : '|' ∉ out) (c : Char) :
    '|' ∉ slugStep out c := by
  unfold slugStep
  split
  · rename_i hc
    have hne : c ≠ '|' := by
      rintro rfl
      exact absurd hc (by decide)
    rw [List.mem_append, List.mem_reverse, not_or]
    exact ⟨Text.bar_not_mem_lowerChar hne, h⟩
  · split
    · exact h
    · rw [List.mem_cons, not_or]
      exact ⟨by decide, h⟩

/-- A slug is made of letters, numbers and underscores. -/
theorem bar_not_mem_slug (name : String) : '|' ∉ (slug name).toList := by
  have hsteps : ∀ (cs out : List Char), '|' ∉ out → '|' ∉ cs.foldl slugStep out := by
    intro cs
    induction cs with
    | nil => exact fun _ h => h
    | cons c cs ih => exact fun out h => ih _ (bar_not_mem_slugStep h c)
  unfold slug
  dsimp only
  split
  · decide
  · rw [String.toList_ofList]
    intro hm
    have htrimmed := List.mem_reverse.1 ((List.dropWhile_suffix _).subset hm)
    exact hsteps name.toList [] List.not_mem_nil ((List.dropWhile_suffix _).subset htrimmed)

theorem bar_not_mem_toString (n : Nat) : '|' ∉ (toString n).toList := by
  rw [Nat.toString_eq_ofList_toDigits, String.toList_ofList]
  intro hm
  exact absurd (Nat.isDigit_of_mem_toDigits (by decide) (by decide) hm) (by decide)

theorem bar_not_mem_baseId {kind : String} (h : '|' ∉ kind.toList) (name : String) :
    '|' ∉ (IdPool.baseId kind name).toList := by
  unfold IdPool.baseId
  simp only [String.toList_append, List.mem_append, not_or]
  exact ⟨⟨h, by decide⟩, bar_not_mem_slug name⟩

theorem bar_not_mem_freeId (pool : IdPool) (kind name : String) (h : '|' ∉ kind.toList) :
    '|' ∉ (pool.freeId kind name).toList := by
  have hbase := bar_not_mem_baseId h name
  unfold IdPool.freeId freeName
  split
  · simp only [String.toList_append, List.mem_append, not_or]
    exact ⟨⟨hbase, by decide⟩, bar_not_mem_toString _⟩
  · exact hbase

/-- **Ids of a graph before** that differ and have no bar. -/
structure Graph.PlainIds (g : Graph) : Prop where
  ids : (g.tables.map (·.id)).Nodup
  bars : ∀ t ∈ g.tables, '|' ∉ t.id.toList

theorem bar_not_mem_placeTable {previous : Option Graph} (h : ∀ g ∈ previous, g.PlainIds)
    (pool : IdPool) (name : String) (index : Nat) :
    '|' ∉ (placeTable (Prior.ofGraph? previous) pool name index).1.id.toList := by
  unfold placeTable
  split
  · rename_i t ht
    obtain ⟨g, hg, hm, -⟩ := Prior.mem_of_table? ht
    exact (h g hg).bars t hm
  · exact bar_not_mem_freeId pool "table" name (by decide)

namespace Recovery.Draft

/-! ## Keys of definitions -/

/-- What waits for the target of a key, in the table of that id. -/
def waiting (id : String) (k : KeySpec) : PendingKey :=
  ⟨id, k.sourceColumn, k.reference, k.targetColumn⟩

/-- **Keys of a definition**: its columns and what stands behind them state the keys `keys`. -/
structure StatesKeys (x : TableDef) (keys : List KeySpec) : Prop where
  titles : (x.columns.map fun c => Text.lower c.name).Nodup
  source : ∀ k ∈ keys, k.sourceTable = x.name ∧ k.sourceColumn ∈ x.columns.map (·.name)
  stated : ∃ behind, x.foreignKeys = behind.map KeySpec.keyDef ∧ behind ⊆ keys ∧
    ∀ id, x.columns.filterMap (columnPending? id) ++ behind.map (waiting id) =
      keys.map (waiting id)

/-- The key starts at a column of the sketches. -/
def Sited (sketches : List (String × List (String × Option String))) (k : KeySpec) : Prop :=
  ∃ x ∈ sketches, x.1 = k.sourceTable ∧ (x.2.map fun c => Text.lower c.1).Nodup ∧
    k.sourceColumn ∈ x.2.map (·.1)

/-- **A draft in which keys wait**: its tables have the sketches `sketches`, their names and ids are
all different, and the keys `keys` wait in the tables that they start at. -/
structure Laid (previous : Option Graph) (sketches : List (String × List (String × Option String)))
    (keys : List KeySpec) (d : Draft) : Prop where
  named : Named d
  identified : Identified previous d
  bars : ∀ t ∈ d.tables, '|' ∉ t.id.toList
  sketches : d.tables.map Table.sketch = sketches
  waits : List.Forall₂ (fun k p => ∃ id, d.tableId? k.sourceTable = some id ∧ p = waiting id k)
    keys d.pending

/-! ## Look-ups -/

theorem Named.tableId?_eq {d : Draft} (h : Named d) {t : Table} (ht : t ∈ d.tables) {name : String}
    (hname : Text.lower name = Text.lower t.name) : d.tableId? name = some t.id := by
  have hkeys : (d.tableIds.map (·.1)).Nodup := by
    rw [h.tableIds, List.map_map]
    exact h.names
  have hm : (Text.lower t.name, t.id) ∈ d.tableIds := by
    rw [h.tableIds]
    exact List.mem_map.2 ⟨t, ht, rfl⟩
  unfold tableId?
  rw [hname]
  exact lookup_of_nodup hkeys hm

theorem tableById?_of_nodup {tables : List Table} (h : (tables.map (·.id)).Nodup) {t : Table}
    (ht : t ∈ tables) : tableById? tables t.id = some t :=
  find?_of_nodup h ht (beq_self_eq_true _) fun _ _ h => eq_of_beq h

theorem column?_of_nodup {t : Table} (h : (t.columns.map (·.title)).Nodup) {c : Column}
    (hc : c ∈ t.columns) : t.column? c.title = some c :=
  find?_of_nodup h hc (beq_self_eq_true _) fun _ _ h => eq_of_beq h

theorem findColumn?_of_column? {t : Table} {title : String} {c : Column}
    (h : t.column? title = some c) : t.findColumn? title = some c := by
  unfold Table.findColumn?
  rw [h]
  rfl

/-- The titles of a table are those of its sketch. -/
theorem titles_of_sketch {t : Table} {x : TableDef} (h : t.sketch = x.sketch) :
    t.columns.map (·.title) = x.columns.map (·.name) := by
  have hmap := congrArg (fun s => s.2.map Prod.fst) h
  unfold Table.sketch TableDef.sketch at hmap
  simpa only [List.map_map, Function.comp_def] using hmap

/-- An id that was found is found when there are more. -/
theorem tableId?_mono {d d' : Draft} (h : d.tableIds <+: d'.tableIds) {name id : String}
    (hid : d.tableId? name = some id) : d'.tableId? name = some id := by
  obtain ⟨more, hmore⟩ := h
  unfold tableId? at hid ⊢
  rw [← hmore, List.lookup_append, hid]
  rfl

/-! ## Phases -/

section
variable {previous : Option Graph} {sketches : List (String × List (String × Option String))}
  {keys : List KeySpec} {d : Draft} (h : Laid previous sketches keys d)
include h

/-- **A table of a new name** brings the keys that its definition states. -/
theorem Laid.addTable (hp : ∀ g ∈ previous, g.PlainIds) {x : TableDef} {own : List KeySpec}
    (hx : StatesKeys x own) (hnew : d.tableId? x.name = none) :
    Laid previous (sketches ++ [x.sketch]) (keys ++ own)
      (Draft.addTable (Prior.ofGraph? previous) d x) := by
  obtain ⟨t, r, hs, hsketch, htables, hpending, he⟩ :=
    addTable_fresh (Prior.ofGraph? previous) hnew hx.titles
  have hname : t.name = x.name := congrArg Prod.fst hsketch
  have htitles := titles_of_sketch hsketch
  have hnamed := h.named.addStep hs (hname ▸ hnew)
  have hidentified := h.identified.addStep h.named (fun g hg => (hp g hg).ids) hs (hname ▸ hnew)
  obtain ⟨behind, hbehind, hsub, hall⟩ := hx.stated
  have hmem : t ∈ (Draft.addTable (Prior.ofGraph? previous) d x).tables := by
    rw [hs.tables]
    exact List.mem_append_right _ (.head _)
  have hcolumns : (t.columns.map (·.title)).Nodup := by
    refine List.Nodup.of_map Text.lower ?_
    rw [htitles, List.map_map]
    exact hx.titles
  have hmapped : t.mapColumns id = t := by
    unfold Table.mapColumns
    rw [List.map_id]
  have hfound : tableById? r.tables t.id = some (t.mapColumns id) := by
    rw [hmapped, htables, ← hs.tables]
    exact tableById?_of_nodup hidentified.ids hmem
  have hsites : ∀ k ∈ behind, ∃ c ∈ t.columns, k.sourceColumn = c.title := by
    intro k hk
    have hm := (hx.source k (hsub hk)).2
    rw [← htitles] at hm
    obtain ⟨c, hc, htitle⟩ := List.mem_map.1 hm
    exact ⟨c, hc, htitle.symm⟩
  have hown := foldl_queueKey_own hcolumns (f := id) (fun _ => rfl) hsites hfound
  have hwaits : (Draft.addTable (Prior.ofGraph? previous) d x).pending =
      d.pending ++ own.map (waiting t.id) := by
    rw [he, hbehind, ← hname, hown, ← hall t.id, ← List.append_assoc, ← hpending]
    rfl
  have hprefix : d.tableIds <+: (Draft.addTable (Prior.ofGraph? previous) d x).tableIds := by
    rw [hs.tableIds]
    exact List.prefix_append _ _
  refine ⟨hnamed, hidentified, ?_, ?_, ?_⟩
  · intro u hu
    rw [hs.tables] at hu
    rcases List.mem_append.1 hu with hu | hu
    · exact h.bars u hu
    · obtain rfl := List.mem_singleton.1 hu
      rw [hs.id]
      exact bar_not_mem_placeTable hp _ _ _
  · rw [hs.tables, List.map_append, h.sketches, List.map_cons, hsketch]
    rfl
  · rw [hwaits]
    refine List.rel_append (h.waits.imp fun k p hw => ?_) ?_
    · obtain ⟨id, hid, hp⟩ := hw
      exact ⟨id, tableId?_mono hprefix hid, hp⟩
    · rw [List.forall₂_map_right_iff]
      refine List.forall₂_same.2 fun k hk => ⟨t.id, ?_, rfl⟩
      refine hnamed.tableId?_eq hmem ?_
      rw [(hx.source k hk).1, hname]

/-- A later phase that no key is noted in. -/
theorem Laid.lateStep {d' : Draft} (hs : LateStep d d') (hp : d'.pending = d.pending) :
    Laid previous sketches keys d' where
  named := h.named.mono hs.outline hs.tableIds
  identified := h.identified.mono hs.outline (hs.pool ▸ List.Subset.refl _)
  bars := by
    intro t ht
    obtain ⟨u, hu, ho⟩ := exists_mem_of_map_eq hs.outline.symm ht
    have hid : u.outline.id = t.outline.id := congrArg Table.id ho
    exact hid ▸ h.bars u hu
  sketches := by
    rw [map_outline_congr Table.sketch Table.sketch_outline hs.outline]
    exact h.sketches
  waits := by
    rw [hp]
    refine h.waits.imp fun k p hw => ?_
    obtain ⟨id, hid, hpending⟩ := hw
    refine ⟨id, ?_, hpending⟩
    unfold tableId? at hid ⊢
    rw [hs.tableIds, hid]

/-- **An index** notes no key. -/
theorem Laid.index (table : String) (columns : List String) (unique : Bool) :
    Laid previous sketches keys (d.addIndex table columns unique) := by
  refine h.lateStep (indexPhase_step d (.createIndex table columns unique)) ?_
  unfold addIndex
  split
  · split <;> rfl
  · rfl

/-- **A key that is added to a table** waits behind the others. -/
theorem Laid.alter {k : KeySpec} (hk : Sited sketches k) :
    Laid previous sketches (keys ++ [k]) (keyPhase d (.alterForeignKey k.sourceTable k.keyDef)) := by
  obtain ⟨x, hx, hname, hn, hcolumn⟩ := hk
  rw [← h.sketches] at hx
  obtain ⟨t, ht, rfl⟩ := List.mem_map.1 hx
  have hid : d.tableId? k.sourceTable = some t.id :=
    h.named.tableId?_eq ht (congrArg Text.lower hname.symm)
  obtain ⟨e, he, htitle⟩ := List.mem_map.1 hcolumn
  obtain ⟨c, hc, rfl⟩ := List.mem_map.1 he
  have htitles : (t.columns.map (·.title)).Nodup := by
    refine List.Nodup.of_map Text.lower ?_
    unfold Table.sketch at hn
    rw [List.map_map] at hn ⊢
    exact hn
  have hfound : (tableById? d.tables t.id).bind (·.findColumn? k.sourceColumn) = some c := by
    rw [tableById?_of_nodup h.identified.ids ht, ← htitle]
    exact findColumn?_of_column? (column?_of_nodup htitles hc)
  have hstep : keyPhase d (.alterForeignKey k.sourceTable k.keyDef) =
      { d with pending := d.pending ++ [waiting t.id k] } := by
    have hqueue : queueKey t.id k.sourceTable d k.keyDef =
        { d with pending := d.pending ++ [⟨t.id, c.title, k.reference, k.targetColumn⟩] } :=
      queueKey_column hfound rfl rfl
    unfold keyPhase
    dsimp only
    rw [hid]
    refine hqueue.trans ?_
    rw [show c.title = k.sourceColumn from htitle]
    rfl
  rw [hstep]
  refine ⟨h.named.mono rfl rfl, h.identified.mono rfl (List.Subset.refl _), h.bars, h.sketches, ?_⟩
  refine List.rel_append h.waits (.cons ⟨t.id, hid, rfl⟩ .nil)

end

/-! ## All phases -/

theorem Laid.foldl_addTable {previous : Option Graph} (hp : ∀ g ∈ previous, g.PlainIds)
    {definitions : List TableDef} {owns : List (List KeySpec)}
    (hx : List.Forall₂ StatesKeys definitions owns)
    {sketches : List (String × List (String × Option String))} {keys : List KeySpec} {d : Draft}
    (h : Laid previous sketches keys d)
    (hn : ((sketches.map fun x => Text.lower x.1) ++
      definitions.map fun x => Text.lower x.name).Nodup) :
    Laid previous (sketches ++ definitions.map TableDef.sketch) (keys ++ owns.flatten)
      (definitions.foldl (Draft.addTable (Prior.ofGraph? previous)) d) := by
  induction hx generalizing sketches keys d with
  | nil =>
    simp only [List.map_nil, List.flatten_nil, List.append_nil, List.foldl_nil]
    exact h
  | @cons x own definitions owns hx _ ih =>
    have hnames : d.tables.map (fun t => Text.lower t.name) =
        sketches.map fun x => Text.lower x.1 := by
      rw [← h.sketches, List.map_map]
      rfl
    have hnew : d.tableId? x.name = none := by
      refine h.named.tableId?_eq_none.2 fun hm => ?_
      rw [hnames] at hm
      exact (List.nodup_append.1 hn).2.2 _ hm _ (.head _) rfl
    have hn' : (((sketches ++ [x.sketch]).map fun x => Text.lower x.1) ++
        definitions.map fun x => Text.lower x.name).Nodup := by
      rw [List.map_append, List.append_assoc]
      exact hn
    have hrest := ih (h.addTable hp hx hnew) hn'
    rw [List.append_assoc, List.append_assoc] at hrest
    exact hrest

theorem Laid.foldl_index {previous : Option Graph}
    {sketches : List (String × List (String × Option String))} {keys : List KeySpec}
    (sites : List (String × List String × Bool)) {d : Draft} (h : Laid previous sketches keys d) :
    Laid previous sketches keys (sites.foldl (fun d x => d.addIndex x.1 x.2.1 x.2.2) d) := by
  induction sites generalizing d with
  | nil => exact h
  | cons x sites ih => exact ih (h.index x.1 x.2.1 x.2.2)

theorem Laid.foldl_alter {previous : Option Graph}
    {sketches : List (String × List (String × Option String))} {keys more : List KeySpec}
    (hk : ∀ k ∈ more, Sited sketches k) {d : Draft} (h : Laid previous sketches keys d) :
    Laid previous sketches (keys ++ more) ((more.map fun k => (k.sourceTable, k.keyDef)).foldl
      (fun d x => keyPhase d (.alterForeignKey x.1 x.2)) d) := by
  induction more generalizing keys d with
  | nil =>
    rw [List.append_nil]
    exact h
  | cons k more ih =>
    have hrest := ih (fun k hm => hk k (.tail _ hm)) (h.alter (hk k (.head _)))
    rw [List.append_assoc] at hrest
    exact hrest

/-- **Keys of a script**: after all phases, the keys that definitions state and those that are added
to tables wait, and no others. -/
theorem laid_ofStatements {previous : Option Graph} (hp : ∀ g ∈ previous, g.PlainIds)
    {statements : List Statement} {owns : List (List KeySpec)} {added : List KeySpec}
    (hx : List.Forall₂ StatesKeys (statements.filterMap defined?) owns)
    (hn : ((statements.filterMap defined?).map fun x => Text.lower x.name).Nodup)
    (haltered : statements.filterMap altered? = added.map fun k => (k.sourceTable, k.keyDef))
    (hk : ∀ k ∈ added, Sited ((statements.filterMap defined?).map TableDef.sketch) k) :
    Laid previous ((statements.filterMap defined?).map TableDef.sketch) (owns.flatten ++ added)
      (ofStatements previous statements) := by
  have hdeclared := foldl_of_phase (enumPhase (Prior.ofGraph? previous)) declared?
    (fun d x => declareEnum (Prior.ofGraph? previous) d x.1 x.2)
    (fun d s => by cases s <;> rfl) statements { pool := IdPool.ofGraph? previous }
  have henums := foldl_enumPhase_step (Prior.ofGraph? previous) statements
    { pool := IdPool.ofGraph? previous }
  rw [hdeclared] at henums
  have hnamed : Named { pool := IdPool.ofGraph? previous } := ⟨rfl, List.nodup_nil⟩
  rw [ofStatements_eq]
  generalize (statements.filterMap declared?).foldl
    (fun d x => declareEnum (Prior.ofGraph? previous) d x.1 x.2)
    { pool := IdPool.ofGraph? previous } = d at henums
  have hnil : d.tables = [] := henums.tables
  have hstart : Laid previous [] [] d := by
    refine ⟨hnamed.mono (by rw [henums.tables]) henums.tableIds,
      (Identified.start previous).mono (by rw [henums.tables]) henums.pool, ?_, ?_, ?_⟩
    · rw [hnil]
      exact fun _ ht => nomatch ht
    · rw [hnil]
      rfl
    · rw [henums.pending]
      exact .nil
  have htables := hstart.foldl_addTable hp hx hn
  rw [haltered]
  exact (htables.foldl_index _).foldl_alter hk

end Recovery.Draft

end DdlGraph
