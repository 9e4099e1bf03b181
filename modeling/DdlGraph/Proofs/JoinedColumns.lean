import DdlGraph.Proofs.PendingKeys

/-!
# Columns that foreign keys join

What a foreign key says, whatever the ids of tables are: the two columns that it joins, by the names
of their tables (`Join`). The edges of a graph say it, the links of a draft, and the keys of a text.

* `join?_congr`: what a key of a text joins depends on names and titles only;
* `joins_links`: the links of a draft join what the keys that wait join;
* `mem_joins_ofDraft`: the edges of the outcome join just that, since links of different columns
  have different keys.
-/

namespace DdlGraph

open Sql Ddl

/-- The columns that a foreign key joins. -/
structure Join where
  sourceTable : String
  sourceColumn : String
  targetTable : String
  targetColumn : String
deriving DecidableEq

/-- What an edge between two of the tables joins. -/
def Edge.join? (tables : List Table) (e : Edge) : Option Join := do
  let source ← tableById? tables e.source
  let target ← tableById? tables e.target
  return ⟨source.name, e.sourceColumn, target.name, e.targetColumn⟩

/-- **Foreign keys of a graph**, by the columns that they join. -/
def Graph.joins (g : Graph) : List Join :=
  g.foreignKeys.filterMap (Edge.join? g.tables)

/-- What a link between two of the tables joins. -/
def Link.join? (tables : List Table) (l : Link) : Option Join := do
  let source ← tableById? tables l.source
  let target ← tableById? tables l.target
  return ⟨source.name, l.sourceColumn, target.name, l.targetColumn⟩

/-- The target of a key among the tables, case left aside. -/
def Ddl.KeySpec.target? (tables : List Table) (k : KeySpec) : Option (String × String) := do
  let t ← tables.find? fun t => Text.lower t.name == Text.lower k.targetTable
  let c ← t.findColumn? k.targetColumn
  return (t.name, c.title)

/-- What a key of a text joins, if its target is among the tables. -/
def Ddl.KeySpec.join? (tables : List Table) (k : KeySpec) : Option Join :=
  (k.target? tables).map fun x => ⟨k.sourceTable, k.sourceColumn, x.1, x.2⟩

/-! ## Names and titles -/

/-- The title that is found depends on the titles. -/
theorem map_findColumn?_congr {t t' : Table}
    (h : t.columns.map (·.title) = t'.columns.map (·.title)) (title : String) :
    (t.findColumn? title).map (·.title) = (t'.findColumn? title).map (·.title) := by
  have hfind : ∀ (p : String → Bool) (t : Table), (t.columns.find? fun c => p c.title).map (·.title) =
      (t.columns.map (·.title)).find? p := by
    intro p t
    rw [List.find?_map]
    rfl
  have hcolumn : (t.column? title).map (·.title) = (t'.column? title).map (·.title) := by
    unfold Table.column?
    rw [hfind (· == title) t, hfind (· == title) t', h]
  have hsame := hfind (Text.sameAscii · title)
  unfold Table.findColumn?
  cases ht : t.column? title with
  | some c =>
    rw [ht] at hcolumn
    cases ht' : t'.column? title with
    | some c' =>
      rw [ht'] at hcolumn
      exact hcolumn
    | none =>
      rw [ht'] at hcolumn
      cases hcolumn
  | none =>
    rw [ht] at hcolumn
    cases ht' : t'.column? title with
    | some c' =>
      rw [ht'] at hcolumn
      cases hcolumn
    | none => rw [Option.none_or, Option.none_or, hsame, hsame, h]

theorem titles_of_sketch_eq {t t' : Table} (h : t.sketch = t'.sketch) :
    t.columns.map (·.title) = t'.columns.map (·.title) := by
  have hmap := congrArg (fun s => s.2.map Prod.fst) h
  unfold Table.sketch at hmap
  simpa only [List.map_map, Function.comp_def] using hmap

theorem target?_congr {tables tables' : List Table}
    (h : tables.map Table.sketch = tables'.map Table.sketch) (k : KeySpec) :
    k.target? tables = k.target? tables' := by
  induction tables generalizing tables' with
  | nil =>
    obtain rfl := List.map_eq_nil_iff.1 h.symm
    rfl
  | cons t tables ih =>
    obtain ⟨t', tables', rfl, ht, hrest⟩ := List.map_eq_cons_iff.1 h.symm
    have hname : t'.name = t.name := congrArg Prod.fst ht
    have htitle := map_findColumn?_congr (titles_of_sketch_eq ht) k.targetColumn
    have hcons : ∀ (u : Table) (us : List Table), k.target? (u :: us) =
        if Text.lower u.name == Text.lower k.targetTable then
          ((u.findColumn? k.targetColumn).map (·.title)).map (Prod.mk u.name)
        else k.target? us := by
      intro u us
      unfold KeySpec.target?
      rw [List.find?_cons]
      cases Text.lower u.name == Text.lower k.targetTable with
      | true => cases hc : u.findColumn? k.targetColumn <;> simp [hc]
      | false => rfl
    rw [hcons, hcons, hname, htitle, ih hrest.symm]

/-- **What a key joins** depends on the names of tables and the titles of their columns only. -/
theorem join?_congr {tables tables' : List Table}
    (h : tables.map Table.sketch = tables'.map Table.sketch) (k : KeySpec) :
    k.join? tables = k.join? tables' := by
  unfold KeySpec.join?
  rw [target?_congr h]

/-- What a link joins depends on the ids and the names of tables only. -/
theorem Link.join?_congr {tables tables' : List Table}
    (h : tables.map (fun t => (t.id, t.name)) = tables'.map fun t => (t.id, t.name)) (l : Link) :
    l.join? tables = l.join? tables' := by
  have hfind : ∀ (id : String) (tables : List Table), (tableById? tables id).map (·.name) =
      ((tables.map fun t => (t.id, t.name)).find? (·.1 == id)).map (·.2) := by
    intro id tables
    rw [List.find?_map, Option.map_map]
    rfl
  have hjoin : ∀ tables, l.join? tables = ((tableById? tables l.source).map (·.name)).bind
      fun source => ((tableById? tables l.target).map (·.name)).map fun target =>
        ⟨source, l.sourceColumn, target, l.targetColumn⟩ := by
    intro tables
    unfold Link.join?
    cases tableById? tables l.source with
    | none => rfl
    | some t => cases tableById? tables l.target <;> rfl
  rw [hjoin, hjoin, hfind, hfind, hfind, hfind, h]

/-! ## Edges of links -/

theorem join?_toEdge (tables : List Table) (styles : List (String × EdgeStyle)) (l : Link) :
    (l.toEdge styles).join? tables = l.join? tables := by
  unfold Edge.join? Link.join? Edge.sourceColumn Edge.targetColumn Link.toEdge
  simp only [handleColumn_sourceHandleFor, handleColumn_targetHandleFor]

/-- The ends of a link have no bar, but for its target column. -/
structure Link.Plain (l : Link) : Prop where
  source : '|' ∉ l.source.toList
  sourceColumn : '|' ∉ l.sourceColumn.toList
  target : '|' ∉ l.target.toList

/-- The ends of a link. -/
def Link.ends (l : Link) : String × String × String × String :=
  (l.source, l.sourceColumn, l.target, l.targetColumn)

/-- **Links of different ends have different keys.** -/
theorem Link.ends_of_key {l l' : Link} (h : l.Plain) (h' : l'.Plain) (hk : l.key = l'.key) :
    l.ends = l'.ends := by
  have hlist : ∀ l : Link, l.key.toList = l.source.toList ++ '|' ::
      (("source-".toList ++ l.sourceColumn.toList) ++ '|' ::
        (l.target.toList ++ '|' :: ("target-".toList ++ l.targetColumn.toList))) := by
    intro l
    have hbar : "|".toList = ['|'] := rfl
    unfold Link.key edgeKey sourceHandleFor targetHandleFor
    simp only [String.toList_append, List.append_assoc, hbar, List.cons_append, List.nil_append]
  have hhandle : ∀ {c : String}, '|' ∉ c.toList → '|' ∉ "source-".toList ++ c.toList := by
    intro c hc hm
    rcases List.mem_append.1 hm with hm | hm
    · exact absurd hm (by decide)
    · exact hc hm
  have hlists := congrArg String.toList hk
  rw [hlist, hlist] at hlists
  obtain ⟨hs, hrest⟩ := Text.append_cons_inj h.source h'.source hlists
  obtain ⟨hsc, hrest⟩ := Text.append_cons_inj (hhandle h.sourceColumn) (hhandle h'.sourceColumn)
    hrest
  obtain ⟨ht, htc⟩ := Text.append_cons_inj h.target h'.target hrest
  have hsource := String.toList_inj.1 hs
  have hsourceColumn := String.toList_inj.1 (List.append_cancel_left hsc)
  have htarget := String.toList_inj.1 ht
  have htargetColumn := String.toList_inj.1 (List.append_cancel_left htc)
  unfold Link.ends
  rw [hsource, hsourceColumn, htarget, htargetColumn]

theorem Link.key_of_ends {l l' : Link} (h : l.ends = l'.ends) : l.key = l'.key := by
  unfold Link.ends at h
  simp only [Prod.mk.injEq] at h
  unfold Link.key
  rw [h.1, h.2.1, h.2.2.1, h.2.2.2]

/-- **Links of different columns have different keys.** -/
theorem Link.join?_of_key {l l' : Link} (h : l.Plain) (h' : l'.Plain) (hk : l.key = l'.key)
    (tables : List Table) : l.join? tables = l'.join? tables := by
  have hends := Link.ends_of_key h h' hk
  unfold Link.ends at hends
  simp only [Prod.mk.injEq] at hends
  unfold Link.join?
  rw [hends.1, hends.2.1, hends.2.2.1, hends.2.2.2]

/-- The edges for links join what the links join. -/
theorem mem_joins_reconcileEdges {links : List Link} (h : ∀ l ∈ links, l.Plain)
    (previous : List Edge) (tables : List Table) (x : Join) :
    x ∈ (reconcileEdges previous links).filterMap (Edge.join? tables) ↔
      x ∈ links.filterMap (Link.join? tables) := by
  rw [List.mem_filterMap, List.mem_filterMap]
  constructor
  · rintro ⟨e, he, hx⟩
    obtain ⟨l, hl, rfl⟩ := Recovery.mem_reconcileAfter he
    exact ⟨l, hl, (join?_toEdge tables _ l).symm.trans hx⟩
  · rintro ⟨l, hl, hx⟩
    have hkey := (Recovery.mem_keys_reconcileEdges previous links l.key).2
      (List.mem_map_of_mem hl)
    obtain ⟨e, he, hek⟩ := List.mem_map.1 hkey
    obtain ⟨l', hl', rfl⟩ := Recovery.mem_reconcileAfter he
    rw [Link.key_toEdge] at hek
    refine ⟨_, he, ?_⟩
    rw [join?_toEdge, Link.join?_of_key (h l' hl') (h l hl) hek]
    exact hx

namespace Recovery.Draft

/-! ## Links of keys that wait -/

/-- What a foreign key that waits joins. -/
def join? (d : Draft) (p : PendingKey) : Option Join := do
  let source ← tableById? d.tables p.tableId
  let _ ← source.column? p.column
  let target ← d.target? p
  return ⟨source.name, p.column, target.1.name, target.2.title⟩

theorem tableById?_outline (tables : List Table) (id : String) :
    tableById? (tables.map Table.outline) id = (tableById? tables id).map Table.outline := by
  unfold tableById?
  rw [List.find?_map]
  rfl

/-- **Later phases** do not change what a foreign key joins. -/
theorem LateStep.join?_eq {d d' : Draft} (h : LateStep d d') (p : PendingKey) :
    d'.join? p = d.join? p := by
  have houtline : KeepsTitles Column.outline := fun _ => rfl
  have heq : ∀ d : Draft, d.join? p = { d with tables := d.tables.map Table.outline }.join? p := by
    intro d
    have hcolumn : ∀ (t : Table) (title : String),
        t.outline.column? title = (t.column? title).map Column.outline :=
      fun t title => Table.column?_mapColumns houtline title
    have hfind : ∀ (t : Table) (title : String),
        t.outline.findColumn? title = (t.findColumn? title).map Column.outline :=
      fun t title => Table.findColumn?_mapColumns houtline title
    unfold join? target? tableId?
    dsimp only
    rw [tableById?_outline]
    cases hs : tableById? d.tables p.tableId with
    | none => rfl
    | some t =>
      simp only [Option.map_some, Option.bind_eq_bind, Option.bind_some, hcolumn]
      cases t.column? p.column with
      | none => rfl
      | some c =>
        cases d.tableIds.lookup (Text.lower p.reference.table) with
        | none => rfl
        | some id =>
          simp only [Option.map_some, Option.bind_some, tableById?_outline]
          cases tableById? d.tables id with
          | none => rfl
          | some t' =>
            simp only [Option.map_some, Option.bind_some, hfind]
            cases t'.findColumn? p.targetColumn <;> rfl
  rw [heq d', heq d, h.outline]
  unfold join? target? tableId?
  dsimp only
  rw [h.tableIds]

/-- The name of a table is found by its id, in whatever phase. -/
theorem LateStep.ids {d d' : Draft} (h : LateStep d d') :
    d'.tables.map (fun t => (t.id, t.name)) = d.tables.map fun t => (t.id, t.name) :=
  map_outline_congr (fun t => (t.id, t.name)) (fun _ => rfl) h.outline

/-- A foreign key that waits gives a link that joins the same. -/
theorem join?_resolveKey {d : Draft} (hn : (d.tables.map (·.id)).Nodup) (links : List Link)
    (p : PendingKey) : (resolveKey (d, links) p).2.filterMap (Link.join? d.tables) =
      links.filterMap (Link.join? d.tables) ++ (d.join? p).toList := by
  have hsource : d.source? p = (tableById? d.tables p.tableId).bind (·.column? p.column) := rfl
  rw [resolveKey_eq]
  unfold join?
  cases ht : tableById? d.tables p.tableId with
  | none =>
    rw [hsource, ht]
    exact (List.append_nil _).symm
  | some t =>
    rw [ht] at hsource
    cases hc : t.column? p.column with
    | none =>
      rw [Option.bind_some, hc] at hsource
      simp only [hsource, Option.bind_eq_bind, Option.bind_some, hc, Option.bind_none,
        Option.toList_none, List.append_nil]
    | some c =>
      rw [Option.bind_some, hc] at hsource
      rw [hsource]
      dsimp only
      cases htarget : d.target? p with
      | none =>
        simp only [Option.bind_eq_bind, Option.bind_some, hc, Option.bind_none, Option.toList_none,
          List.append_nil]
      | some x =>
        obtain ⟨t', c'⟩ := x
        obtain ⟨htm, -⟩ := mem_of_target? htarget
        have hjoin : (linkOf p c (t', c')).join? d.tables =
            some ⟨t.name, p.column, t'.name, c'.title⟩ := by
          unfold Link.join? linkOf
          dsimp only
          rw [ht, tableById?_of_nodup hn htm]
          rfl
        dsimp only
        rw [List.filterMap_append, List.filterMap_cons, hjoin, List.filterMap_nil]
        simp only [Option.bind_eq_bind, Option.bind_some, hc, Option.pure_def, Option.toList_some]

/-- **All foreign keys that wait** give links that join the same. -/
theorem joins_links (pending : List PendingKey) {d : Draft} {links : List Link}
    (hn : (d.tables.map (·.id)).Nodup) (h : ∀ l ∈ links, KeyLink d.tables l) :
    (pending.foldl resolveKey (d, links)).2.filterMap (Link.join? d.tables) =
      links.filterMap (Link.join? d.tables) ++ pending.filterMap d.join? := by
  induction pending generalizing d links with
  | nil => exact (List.append_nil _).symm
  | cons p pending ih =>
    obtain ⟨hs, hl⟩ := resolveKey_step h p
    have hids : (resolveKey (d, links) p).1.tables.map (·.id) = d.tables.map (·.id) :=
      map_outline_congr (·.id) (fun _ => rfl) hs.outline
    have hrest := ih (hids ▸ hn) hl
    have hlink : Link.join? (resolveKey (d, links) p).1.tables = Link.join? d.tables :=
      funext fun l => Link.join?_congr hs.ids l
    have hpending : (resolveKey (d, links) p).1.join? = d.join? := funext hs.join?_eq
    rw [hlink, hpending, join?_resolveKey hn] at hrest
    rw [List.foldl_cons, hrest, List.append_assoc]
    congr 1
    rw [List.filterMap_cons]
    cases d.join? p <;> rfl

/-- **Foreign keys of a draft**: they join what the keys that waited in it join, if their links have
plain ends. -/
theorem mem_joins_ofDraft (previous : Option Graph) {d : Draft} (hn : (d.tables.map (·.id)).Nodup)
    (hplain : ∀ l, KeyLink d.links.1.tables l → l.Plain) (x : Join) :
    x ∈ (Outcome.ofDraft previous d.links.1 d.links.2).graph.joins ↔
      x ∈ d.pending.filterMap d.join? := by
  have hnil : ∀ l ∈ [], KeyLink d.tables l := fun _ hl => nomatch hl
  obtain ⟨hs, hl⟩ := foldl_resolveKey d.pending hnil
  have hjoins := joins_links d.pending hn hnil
  have hlinks : d.links = ((d.pending.foldl resolveKey (d, [])).1,
      (d.pending.foldl resolveKey (d, [])).2 ++ d.enumUses.map enumLinkOf) := rfl
  rw [hlinks] at hplain ⊢
  generalize d.pending.foldl resolveKey (d, []) = r at *
  have hkind : ∀ l ∈ r.2, l.enumLink = false := by
    intro l hm
    obtain ⟨t, -, c, -, t', -, c', -, -, -, -, -, -, -, hkind⟩ := hl l hm
    exact hkind
  have hforeign := foreignKeys_ofDraft previous r.1 hkind d.enumUses
  have htables : Link.join? r.1.tables = Link.join? d.tables :=
    funext fun l => Link.join?_congr hs.ids l
  unfold Graph.joins
  rw [hforeign]
  change x ∈ (reconcileEdges _ r.2).filterMap (Edge.join? r.1.tables) ↔ _
  rw [mem_joins_reconcileEdges fun l hm => hplain l (hl l hm), htables, hjoins]
  rfl

/-! ## Keys that wait -/

theorem filterMap_of_forall₂ {α β γ : Type} {f : α → Option γ} {g : β → Option γ} {as : List α}
    {bs : List β} (h : List.Forall₂ (fun a b => f a = g b) as bs) :
    as.filterMap f = bs.filterMap g := by
  induction h with
  | nil => rfl
  | cons h _ ih => rw [List.filterMap_cons, List.filterMap_cons, h, ih]

section
variable {previous : Option Graph} {sketches : List (String × List (String × Option String))}
  {keys : List KeySpec} {d : Draft} (h : Laid previous sketches keys d)
include h

/-- The target of a key is looked up by its name. -/
theorem Laid.target?_waiting (id : String) (k : KeySpec) :
    (d.target? (waiting id k)).map (fun x => (x.1.name, x.2.title)) = k.target? d.tables := by
  have hlookup : ∀ tables : List Table, (tables.map fun t => (Text.lower t.name, t.id)).lookup
      (Text.lower k.targetTable) =
        (tables.find? fun t => Text.lower t.name == Text.lower k.targetTable).map (·.id) := by
    intro tables
    induction tables with
    | nil => rfl
    | cons t tables ih =>
      rw [List.map_cons, List.lookup_cons, List.find?_cons, ih,
        BEq.comm (a := Text.lower t.name)]
      cases Text.lower k.targetTable == Text.lower t.name <;> rfl
  have hid : d.tableId? k.targetTable =
      (d.tables.find? fun t => Text.lower t.name == Text.lower k.targetTable).map (·.id) := by
    unfold tableId?
    rw [h.named.tableIds, hlookup]
  unfold target? KeySpec.target?
  change ((d.tableId? k.targetTable).bind fun id => _).map _ = _
  rw [hid]
  cases hf : d.tables.find? fun t => Text.lower t.name == Text.lower k.targetTable with
  | none => rfl
  | some t =>
    have hfound := tableById?_of_nodup h.identified.ids (List.mem_of_find?_eq_some hf)
    simp only [Option.map_some, Option.bind_some, hfound, Option.bind_eq_bind, waiting]
    cases t.findColumn? k.targetColumn <;> rfl

/-- **A key that waits** joins what the key joins. -/
theorem Laid.join?_waiting {k : KeySpec} (hk : Sited sketches k) {id : String}
    (hid : d.tableId? k.sourceTable = some id) :
    d.join? (waiting id k) = k.join? d.tables := by
  obtain ⟨x, hx, hname, hn, hcolumn⟩ := hk
  rw [← h.sketches] at hx
  obtain ⟨t, ht, rfl⟩ := List.mem_map.1 hx
  rw [h.named.tableId?_eq ht (congrArg Text.lower hname.symm)] at hid
  obtain rfl := Option.some.inj hid
  obtain ⟨e, he, htitle⟩ := List.mem_map.1 hcolumn
  obtain ⟨c, hc, rfl⟩ := List.mem_map.1 he
  have htitles : (t.columns.map (·.title)).Nodup := by
    refine List.Nodup.of_map Text.lower ?_
    unfold Table.sketch at hn
    rw [List.map_map] at hn ⊢
    exact hn
  have hfound : t.column? k.sourceColumn = some c := by
    rw [← htitle]
    exact column?_of_nodup htitles hc
  have hsource : t.name = k.sourceTable := hname
  have htarget := h.target?_waiting t.id k
  unfold join? KeySpec.join?
  rw [← htarget, ← hsource]
  change (tableById? d.tables t.id).bind _ = _
  rw [tableById?_of_nodup h.identified.ids ht, Option.bind_some]
  change (t.column? k.sourceColumn).bind _ = _
  rw [hfound, Option.bind_some, Option.map_map]
  cases d.target? (waiting t.id k) <;> rfl

/-- The links of a draft have plain ends, if no title has a bar. -/
theorem Laid.plain_of_keyLink (hb : ∀ x ∈ sketches, ∀ c ∈ x.2, '|' ∉ c.1.toList) {d' : Draft}
    (hs : LateStep d d') {l : Link} (hl : KeyLink d'.tables l) : l.Plain := by
  obtain ⟨t, ht, c, hc, t', ht', -, -, hsource, hsourceColumn, htarget, -⟩ := hl
  have hids : ∀ t ∈ d'.tables, '|' ∉ t.id.toList := by
    intro t ht
    obtain ⟨u, hu, he⟩ := exists_mem_of_map_eq hs.ids.symm ht
    have hid : u.id = t.id := congrArg Prod.fst he
    exact hid ▸ h.bars u hu
  have hsketches := map_outline_congr Table.sketch Table.sketch_outline hs.outline
  rw [h.sketches] at hsketches
  have hsketch : t.sketch ∈ sketches := hsketches ▸ List.mem_map_of_mem ht
  refine ⟨hsource ▸ hids t ht, hsourceColumn ▸ ?_, htarget ▸ hids t' ht'⟩
  exact hb _ hsketch (c.title, c.defaultValue) (List.mem_map.2 ⟨c, hc, rfl⟩)

/-- **Foreign keys of an outcome**: they join what the keys that waited join. -/
theorem Laid.mem_joins_ofDraft (hk : ∀ k ∈ keys, Sited sketches k)
    (hb : ∀ x ∈ sketches, ∀ c ∈ x.2, '|' ∉ c.1.toList) (x : Join) :
    x ∈ (Outcome.ofDraft previous d.links.1 d.links.2).graph.joins ↔
      x ∈ keys.filterMap (KeySpec.join? d.tables) := by
  have hwaits : d.pending.filterMap d.join? = keys.filterMap (KeySpec.join? d.tables) := by
    refine (filterMap_of_forall₂ ?_).symm
    refine ((List.forall₂_and_left (p := Sited sketches) keys d.pending).2
      ⟨hk, h.waits⟩).imp ?_
    rintro k p ⟨hsited, id, hid, rfl⟩
    exact (h.join?_waiting hsited hid).symm
  rw [Draft.mem_joins_ofDraft previous h.identified.ids, hwaits]
  exact fun l hl => h.plain_of_keyLink hb (lateStep_links d) hl

end

end Recovery.Draft

end DdlGraph
