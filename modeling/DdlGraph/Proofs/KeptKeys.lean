import DdlGraph.Proofs.PriorInfluence
import DdlGraph.Proofs.StatedKeys
import Mathlib.Data.List.Induction

/-!
# No key of a text is lost, or just which ones are

Each foreign key that a script states has its place in the graph: an edge between its columns if its
target is there, and otherwise the column that it starts at, which keeps the target by name. All
keys with a target have their edges, however many start at one column. But a column has room for one
target only, and the last key of the column takes it: a key without a target is kept just if no later
key of its column goes elsewhere.

* `keyTarget?`, `lastKey?`: the target of a key in a graph, and the last key of a column;
* `rebuilt_resolve`: what the keys leave in the columns;
* `mem_joins_statedKeys`: the foreign keys of the graph are those of the script that have a target;
* `recover_keepsKeys`: what becomes of each key of a script.
-/

namespace DdlGraph.Recovery

open Sql

/-! ## Targets -/

/-- **Target of a key** among the tables, case left aside. -/
def keyTarget? (tables : List Table) (p : PendingKey) : Option (Table × Column) :=
  (tableNamed? tables p.reference.table).bind fun t =>
    (t.findColumn? p.targetColumn).map fun c => (t, c)

/-- The keys of a column. -/
def keysOfColumn (keys : List PendingKey) (id title : String) : List PendingKey :=
  keys.filter fun p => p.tableId = id ∧ p.column = title

/-- **Last key** of a column. -/
def lastKey? (keys : List PendingKey) (id title : String) : Option PendingKey :=
  (keysOfColumn keys id title).getLast?

/-- The keys name the same target. -/
def PendingKey.SameTarget (p q : PendingKey) : Prop :=
  q.reference.table = p.reference.table ∧ q.targetColumn = p.targetColumn

/-- **The column keeps the key** without its target, which it names. -/
def KeepsOpen (c : Column) (p : PendingKey) : Prop :=
  ∃ k ∈ c.foreignKey, k.resolved = false ∧ k.table = p.reference.table ∧ k.column = p.targetColumn

instance (p q : PendingKey) : Decidable (p.SameTarget q) :=
  inferInstanceAs (Decidable (_ ∧ _))

instance (c : Column) (p : PendingKey) : Decidable (KeepsOpen c p) :=
  inferInstanceAs (Decidable (∃ k ∈ c.foreignKey, _))

/-- **The edge joins** just these two columns as a foreign key. -/
def JoinedBy (e : Edge) (t : Table) (c : Column) (t' : Table) (c' : Column) : Prop :=
  e.enumLink = false ∧ e.source = t.id ∧ e.sourceColumn = c.title ∧
    e.target = t'.id ∧ e.targetColumn = c'.title

/-- **Where a key lands** in a graph, as one of the keys that a text states. It starts at a column of
the graph. If its target is there, an edge joins just these two columns. If not, the column keeps the
name of the target just if the last key of the column has no target either and names the same. -/
def Lands (g : Graph) (keys : List PendingKey) (p : PendingKey) : Prop :=
  ∃ t ∈ g.tables, t.id = p.tableId ∧ ∃ c ∈ t.columns, c.title = p.column ∧
    (∀ t' c', keyTarget? g.tables p = some (t', c') → ∃ e ∈ g.edges, JoinedBy e t c t' c') ∧
    (keyTarget? g.tables p = none → (KeepsOpen c p ↔
      ∃ q ∈ lastKey? keys p.tableId p.column, keyTarget? g.tables q = none ∧ p.SameTarget q))

theorem lastKey?_concat (keys : List PendingKey) (p : PendingKey) (id title : String) :
    lastKey? (keys ++ [p]) id title =
      if p.tableId = id ∧ p.column = title then some p else lastKey? keys id title := by
  unfold lastKey? keysOfColumn
  rw [List.filter_append, List.filter_singleton]
  by_cases h : p.tableId = id ∧ p.column = title
  · rw [if_pos h, decide_eq_true h, cond_true, List.getLast?_concat]
  · rw [if_neg h, decide_eq_false h, cond_false, List.append_nil]

theorem exists_lastKey? {keys : List PendingKey} {p : PendingKey} (h : p ∈ keys) :
    ∃ q, lastKey? keys p.tableId p.column = some q := by
  have hm : p ∈ keysOfColumn keys p.tableId p.column :=
    List.mem_filter.2 ⟨h, decide_eq_true ⟨rfl, rfl⟩⟩
  exact ⟨_, List.getLast?_eq_some_getLast (List.ne_nil_of_mem hm)⟩

theorem keyTarget?_outline (tables : List Table) (p : PendingKey) :
    keyTarget? (tables.map Table.outline) p =
      (keyTarget? tables p).map fun x => (x.1.outline, x.2.outline) := by
  unfold keyTarget?
  rw [tableNamed?_outline]
  cases tableNamed? tables p.reference.table with
  | none => rfl
  | some t =>
    simp only [Option.map_some, Option.bind_some, Table.outline_eq,
      Table.findColumn?_mapColumns keepsTitles_outline, Option.map_map]
    rfl

/-- What a column holds of a key depends on the outlines of the tables. -/
theorem foreignKeyOf_congr {tables tables' : List Table}
    (h : tables'.map Table.outline = tables.map Table.outline) (p : PendingKey) :
    Draft.foreignKeyOf p (keyTarget? tables' p) = Draft.foreignKeyOf p (keyTarget? tables p) := by
  have houtline : ∀ tables, Draft.foreignKeyOf p (keyTarget? (tables.map Table.outline) p) =
      Draft.foreignKeyOf p (keyTarget? tables p) := by
    intro tables
    rw [keyTarget?_outline]
    cases keyTarget? tables p <;> rfl
  rw [← houtline, h, houtline]

/-- A column that holds a key without a target names the target of that key. -/
theorem keepsOpen_iff {c : Column} {p q : PendingKey} {target : Option (Table × Column)}
    (h : c.foreignKey = some (Draft.foreignKeyOf q target)) :
    KeepsOpen c p ↔ target = none ∧ p.SameTarget q := by
  unfold KeepsOpen PendingKey.SameTarget
  rw [h]
  cases target <;> simp [Draft.foreignKeyOf]

/-! ## Sites -/

/-- **A key of a script** starts at a column that is there. -/
theorem site_of_mem_statedKeys {statements : List Statement} {tables : List Table}
    {p : PendingKey} (h : p ∈ statedKeys statements tables) :
    ∃ t ∈ tables, t.id = p.tableId ∧ ∃ c ∈ t.columns, c.title = p.column := by
  have hin : ∀ (t : Table) (key : KeyDef), ∀ k ∈ keysIn t key,
      ∃ c ∈ t.columns, c.title = k.column := by
    intro t key k hk
    obtain ⟨x, -, hx⟩ := List.mem_filterMap.1 hk
    obtain ⟨c, hc, rfl⟩ := Option.map_eq_some_iff.1 hx
    rcases Option.or_eq_some_iff.1 hc with hc | ⟨-, hc⟩
    · exact ⟨c, List.mem_of_find?_eq_some hc, rfl⟩
    · exact ⟨c, List.mem_of_find?_eq_some hc, rfl⟩
  rcases List.mem_append.1 h with h | h
  · obtain ⟨x, hx, hp⟩ := List.mem_flatMap.1 h
    obtain ⟨k, hk, rfl⟩ := List.mem_map.1 hp
    refine ⟨x.2, (List.of_mem_zip hx).2, rfl, ?_⟩
    rcases List.mem_append.1 hk with hk | hk
    · obtain ⟨y, hy, hy'⟩ := List.mem_filterMap.1 hk
      obtain ⟨reference, -, rfl⟩ := Option.map_eq_some_iff.1 hy'
      exact ⟨y.2, (List.of_mem_zip hy).2, rfl⟩
    · obtain ⟨key, -, hk⟩ := List.mem_flatMap.1 hk
      exact hin x.2 key k hk
  · obtain ⟨x, -, hp⟩ := List.mem_flatMap.1 h
    unfold addedKeys at hp
    split at hp
    · rename_i t ht
      obtain ⟨k, hk, rfl⟩ := List.mem_map.1 hp
      exact ⟨t, List.mem_of_find?_eq_some ht, rfl, hin t x.2 k hk⟩
    · cases hp

namespace Draft

/-! ## Keys in columns -/

section
variable {previous : Option Graph} {definitions : List TableDef} {d : Draft}

/-- The target that a draft finds is the one among its tables. -/
theorem target?_eq_keyTarget? (hn : d.Named) (hids : (d.tables.map (·.id)).Nodup)
    (p : PendingKey) : d.target? p = keyTarget? d.tables p := by
  unfold target? keyTarget?
  rw [tableId?_named hn]
  cases hfind : tableNamed? d.tables p.reference.table with
  | none => rfl
  | some t =>
    have hfound := tableById?_of_nodup hids (List.mem_of_find?_eq_some hfind)
    simp only [Option.map_some, Option.bind_eq_bind, Option.bind_some, hfound]
    cases t.findColumn? p.targetColumn <;> rfl

/-- The column with what it holds of the key. -/
def settle (d : Draft) (p : PendingKey) (c : Column) : Column :=
  { c with foreignKey := some (foreignKeyOf p (keyTarget? d.tables p)) }

/-- The column with what it holds of the last of its keys. -/
def slotted (d : Draft) (keys : List PendingKey) (t : Table) (c : Column) : Column :=
  match lastKey? keys t.id c.title with
  | some p => d.settle p c
  | none => c

theorem touched_slotted (d : Draft) (keys : List PendingKey) (p : PendingKey) :
    touched [(p.tableId, p.column)] (fun _ => d.settle p) (d.slotted keys) =
      d.slotted (keys ++ [p]) := by
  funext t c
  unfold touched slotted
  rw [lastKey?_concat]
  have hsite : (t.id, c.title) ∈ [(p.tableId, p.column)] ↔
      p.tableId = t.id ∧ p.column = c.title := by
    rw [List.mem_singleton, Prod.mk.injEq, eq_comm, @eq_comm _ c.title]
  by_cases h : p.tableId = t.id ∧ p.column = c.title
  · rw [if_pos h, if_pos (hsite.2 h)]
    cases lastKey? keys t.id c.title <;> rfl
  · rw [if_neg h, if_neg (mt hsite.1 h)]

/-- A draft as a graph whose names and titles are different. -/
theorem Complete.distinct (h : Complete previous definitions d)
    (distinct : ∀ g ∈ previous, (g.tables.map (·.id)).Nodup) :
    Graph.Distinct { tables := d.tables } where
  ids := (h.identified distinct).ids
  names := h.named.names
  titles := fun t ht => by
    refine List.Nodup.of_map Text.foldAscii ?_
    have htitles := (h.ok t ht).titles
    unfold Table.foldedTitles at htitles
    rw [List.map_map]
    exact htitles

theorem rebuilt_refl (h : d.Named) :
    Rebuilt { tables := d.tables } (d.slotted []) d where
  tables := by
    have hsame : ∀ t : Table, t.mapColumns (d.slotted [] t) = t := by
      intro t
      have hid : d.slotted [] t = id := rfl
      unfold Table.mapColumns
      rw [hid, List.map_id]
    simp only [hsame, List.map_id']
  tableIds := h.tableIds
  titles := fun _ _ => rfl

/-- **Keys in columns**: each key of the list starts at a column, and each column has the last of its
keys in the end. -/
theorem rebuilt_resolve (h : Complete previous definitions d)
    (distinct : ∀ g ∈ previous, (g.tables.map (·.id)).Nodup) {keys : List PendingKey}
    (hsites : ∀ p ∈ keys, ∃ t ∈ d.tables, t.id = p.tableId ∧ ∃ c ∈ t.columns, c.title = p.column) :
    Rebuilt { tables := d.tables } (d.slotted keys) (keys.foldl resolveKey (d, [])).1 := by
  induction keys using List.reverseRecOn with
  | nil => exact rebuilt_refl h.named
  | append_singleton keys p ih =>
    have hbefore := ih fun q hq => hsites q (List.mem_append_left _ hq)
    have hnil : ∀ l ∈ [], KeyLink d.tables l := fun _ hl => nomatch hl
    obtain ⟨hlate, -⟩ := foldl_resolveKey keys hnil
    rw [List.foldl_concat, ← touched_slotted]
    generalize keys.foldl resolveKey (d, []) = r at *
    obtain ⟨t, ht, hid, c, hc, htitle⟩ := hsites p (List.mem_append_right _ (.head _))
    have hg := h.distinct distinct
    have hr := h.lateStep hlate
    have hkey : foreignKeyOf p (r.1.target? p) = foreignKeyOf p (keyTarget? d.tables p) := by
      rw [target?_eq_keyTarget? hr.named (hr.identified distinct).ids,
        foreignKeyOf_congr hlate.outline]
    have hsource : r.1.source? p = some (d.slotted keys t c) := by
      unfold source?
      rw [← hid, ← htitle, hbefore.tableById?_eq hg ht]
      exact hbefore.column?_eq hg ht hc
    have hset : setKey p.column (foreignKeyOf p (keyTarget? d.tables p))
        (t.mapColumns (d.slotted keys t)) =
        (t.mapColumns (d.slotted keys t)).updateColumn c.title (d.settle p) := by
      unfold setKey
      rw [← htitle, hbefore.findColumn?_eq hg ht hc]
      dsimp only
      rw [hbefore.titles t c]
      rfl
    have htouch := hbefore.touch hg ht hc (u := fun _ => d.settle p) (fun _ _ => rfl) hset
    rw [hid, htitle] at htouch
    rw [show r = (r.1, r.2) from rfl, resolveKey_eq, hsource, hkey]
    dsimp only
    cases r.1.target? p with
    | some x => exact htouch
    | none => exact htouch.mono rfl rfl

end

end Draft

/-! ## Edges of keys -/

/-- The ids of a recovered graph have no bar, if those of the graph before have none. -/
theorem bar_not_mem_id {text : String} {previous : Option Graph} {o : Outcome}
    (hp : ∀ g ∈ previous, g.PlainIds) (h : recover text previous = .ok o) :
    ∀ t ∈ o.graph.tables, '|' ∉ t.id.toList := by
  obtain ⟨-, rfl⟩ := recover_eq_ok_iff.1 h
  have hkept := keepsIdentity_links previous (Script.ofText text).statements []
  intro t ht
  obtain ⟨k, hk⟩ := List.getElem?_of_mem ht
  have hplaced := hkept.tables k t hk
  cases hname : (previous.getD {}).tableNamed? t.name with
  | some q =>
    rw [hname] at hplaced
    have hid : t.id = q.id := congrArg Placement.id hplaced
    have hq := List.mem_of_find?_eq_some hname
    cases previous with
    | none => cases hq
    | some g => exact hid ▸ (hp g rfl).bars q hq
  | none =>
    rw [hname] at hplaced
    exact bar_not_mem_numberedId hplaced.1 (by decide)

/-- Names of tables stand for ids, so what is joined by name is joined by an edge. -/
theorem exists_joinedBy {g : Graph} (hg : (g.tables.map fun t => Text.lower t.name).Nodup)
    {t t' : Table} (ht : t ∈ g.tables) (ht' : t' ∈ g.tables) {c c' : Column}
    (h : ⟨t.name, c.title, t'.name, c'.title⟩ ∈ g.joins) :
    ∃ e ∈ g.edges, JoinedBy e t c t' c' := by
  have hext : ∀ {t u : Table}, t ∈ g.tables → u ∈ g.tables → u.name = t.name → u = t :=
    fun ht hu he => List.inj_on_of_nodup_map hg hu ht (congrArg Text.lower he)
  obtain ⟨e, he, hjoin⟩ := List.mem_filterMap.1 h
  obtain ⟨he, hkind⟩ := List.mem_filter.1 he
  obtain ⟨u, hu, hjoin⟩ := Option.bind_eq_some_iff.1 hjoin
  obtain ⟨u', hu', hjoin⟩ := Option.bind_eq_some_iff.1 hjoin
  obtain ⟨hname, hcolumn, hname', hcolumn'⟩ := Join.mk.inj (Option.some.inj hjoin)
  obtain rfl := hext ht (List.mem_of_find?_eq_some hu) hname
  obtain rfl := hext ht' (List.mem_of_find?_eq_some hu') hname'
  exact ⟨e, he, by simpa using hkind, (id_of_tableById? hu).symm, hcolumn,
    (id_of_tableById? hu').symm, hcolumn'⟩

/-! ## Outcome -/

section
variable {text : String} {previous : Option Graph} {o : Outcome}
  (hp : ∀ g ∈ previous, g.PlainIds) (h : recover text previous = .ok o)
  (bars : ∀ t ∈ o.graph.tables, ∀ c ∈ t.columns, '|' ∉ c.title.toList)
include hp h

/-- **What a column refers to**: the last key of a column that the script states. -/
theorem foreignKey_of_lastKey? {t : Table} (ht : t ∈ o.graph.tables) {c : Column}
    (hc : c ∈ t.columns) {q : PendingKey}
    (hq : lastKey? (statedKeys (Script.ofText text).statements o.graph.tables) t.id c.title =
      some q) :
    c.foreignKey = some (Draft.foreignKeyOf q (keyTarget? o.graph.tables q)) := by
  have distinct : ∀ g ∈ previous, (g.tables.map (·.id)).Nodup := fun g hg => (hp g hg).ids
  obtain ⟨-, rfl⟩ := recover_eq_ok_iff.1 h
  have hcomplete := Draft.complete_ofStatements previous (Script.ofText text).statements
  have hpending := Draft.pending_ofStatements distinct (Script.ofText text).statements
  generalize Draft.ofStatements previous (Script.ofText text).statements = d at *
  have hlate := Draft.lateStep_links d
  have hsites : ∀ p ∈ d.pending,
      ∃ t ∈ d.tables, t.id = p.tableId ∧ ∃ c ∈ t.columns, c.title = p.column := by
    rw [hpending]
    exact fun p hm => site_of_mem_statedKeys hm
  have hrebuilt := Draft.rebuilt_resolve hcomplete distinct hsites
  change lastKey? (statedKeys _ d.links.1.tables) t.id c.title = some q at hq
  rw [statedKeys_congr hlate.outline, ← hpending] at hq
  have htables : d.links.1.tables = _ := hrebuilt.tables
  change t ∈ d.links.1.tables at ht
  rw [htables] at ht
  obtain ⟨u, hu, rfl⟩ := List.mem_map.1 ht
  obtain ⟨x, hx, rfl⟩ := List.mem_map.1 hc
  rw [hrebuilt.titles u x] at hq
  change lastKey? d.pending u.id x.title = some q at hq
  change _ = some (Draft.foreignKeyOf q (keyTarget? d.links.1.tables q))
  rw [foreignKeyOf_congr hlate.outline]
  unfold Draft.slotted
  rw [hq]
  rfl

include bars

/-- **Foreign keys of a recovered graph**: just the keys of the script that have a target. -/
theorem mem_joins_statedKeys (x : Join) :
    x ∈ o.graph.joins ↔ ∃ p ∈ statedKeys (Script.ofText text).statements o.graph.tables,
      ∃ t ∈ o.graph.tables, t.id = p.tableId ∧ ∃ y ∈ keyTarget? o.graph.tables p,
        x = ⟨t.name, p.column, y.1.name, y.2.title⟩ := by
  have distinct : ∀ g ∈ previous, (g.tables.map (·.id)).Nodup := fun g hg => (hp g hg).ids
  have hids := bar_not_mem_id hp h
  obtain ⟨-, rfl⟩ := recover_eq_ok_iff.1 h
  have hcomplete := Draft.complete_ofStatements previous (Script.ofText text).statements
  have hpending := Draft.pending_ofStatements distinct (Script.ofText text).statements
  generalize Draft.ofStatements previous (Script.ofText text).statements = d at *
  have hlate := Draft.lateStep_links d
  have hfinal := hcomplete.lateStep hlate
  have hg := hfinal.distinct distinct
  have hplain : ∀ l, KeyLink d.links.1.tables l → l.Plain := by
    rintro l ⟨t, ht, c, hc, t', ht', -, -, hs, hsc, hg, -⟩
    exact ⟨hs ▸ hids t ht, hsc ▸ bars t ht c hc, hg ▸ hids t' ht'⟩
  have hjoin : ∀ p ∈ statedKeys (Script.ofText text).statements d.links.1.tables,
      d.join? p = some x ↔ ∃ t ∈ d.links.1.tables, t.id = p.tableId ∧
        ∃ y ∈ keyTarget? d.links.1.tables p, x = ⟨t.name, p.column, y.1.name, y.2.title⟩ := by
    intro p hm
    obtain ⟨t, ht, hid, c, hc, htitle⟩ := site_of_mem_statedKeys hm
    have hfound := Draft.tableById?_of_nodup hg.ids ht
    have hcolumn := Draft.column?_of_nodup (hg.titles t ht) hc
    rw [hid] at hfound
    rw [htitle] at hcolumn
    have hone : ∀ u ∈ d.links.1.tables, u.id = p.tableId → u = t := fun u hu he =>
      List.inj_on_of_nodup_map hg.ids hu ht (he.trans hid.symm)
    rw [← hlate.join?_eq]
    unfold Draft.join?
    rw [hfound, Draft.target?_eq_keyTarget? hfinal.named hg.ids]
    simp only [Option.bind_eq_bind, Option.bind_some, hcolumn]
    constructor
    · intro he
      obtain ⟨y, hy, he⟩ := Option.bind_eq_some_iff.1 he
      exact ⟨t, ht, hid, y, hy, (Option.some.inj he).symm⟩
    · rintro ⟨u, hu, he, y, hy, rfl⟩
      rw [hone u hu he, hy]
      rfl
  rw [Draft.mem_joins_ofDraft previous (hcomplete.distinct distinct).ids hplain, hpending,
    ← statedKeys_congr hlate.outline, List.mem_filterMap]
  exact exists_congr fun p => and_congr_right fun hm => hjoin p hm

/-- **Each key of a script lands** in the graph: as an edge if its target is there, and otherwise in
its column, unless a later key of the column goes elsewhere. -/
theorem recover_keepsKeys :
    ∀ p ∈ statedKeys (Script.ofText text).statements o.graph.tables,
      Lands o.graph (statedKeys (Script.ofText text).statements o.graph.tables) p := by
  intro p hm
  obtain ⟨t, ht, hid, c, hc, htitle⟩ := site_of_mem_statedKeys hm
  have hnames : (o.graph.tables.map fun t => Text.lower t.name).Nodup := by
    obtain ⟨-, rfl⟩ := recover_eq_ok_iff.1 h
    exact (Draft.complete_links previous (Script.ofText text).statements).1.named.names
  refine ⟨t, ht, hid, c, hc, htitle, fun t' c' htarget => ?_, fun _ => ?_⟩
  · obtain ⟨u, hu, hfound⟩ := Option.bind_eq_some_iff.1 htarget
    obtain ⟨x, -, he⟩ := Option.map_eq_some_iff.1 hfound
    obtain ⟨rfl, rfl⟩ := Prod.mk.inj he
    refine exists_joinedBy hnames ht (List.mem_of_find?_eq_some hu) ?_
    rw [htitle]
    exact (mem_joins_statedKeys hp h bars _).2 ⟨p, hm, t, ht, hid, _, htarget, rfl⟩
  · obtain ⟨q, hq⟩ := exists_lastKey? hm
    have hslot := foreignKey_of_lastKey? hp h ht hc (q := q) (by rw [hid, htitle]; exact hq)
    rw [keepsOpen_iff hslot, hq]
    exact ⟨fun hk => ⟨q, rfl, hk⟩, fun ⟨r, hr, hk⟩ => Option.some.inj hr ▸ hk⟩

end

set_option maxRecDepth 2000 in
/-- Two keys of one column with the same target, and one without a target that is added to the table
under another case of its name: the last one is kept in the column. -/
theorem recover_keepsKeys_orders :
    let text := "CREATE TABLE users (id INT);
CREATE TABLE orders (user_id INT REFERENCES users(id), FOREIGN KEY (USER_ID) REFERENCES Users);
ALTER TABLE Orders ADD FOREIGN KEY (user_id) REFERENCES clients(code);"
    ∃ o, recover text (some { tables := [{ id := "t1", name := "USERS" }] }) = .ok o ∧
      (statedKeys (Script.ofText text).statements o.graph.tables).map (fun p =>
        (p.tableId, p.column, p.reference.table, p.targetColumn)) =
          [("table-orders", "user_id", "users", "id"), ("table-orders", "user_id", "Users", "id"),
            ("table-orders", "user_id", "clients", "code")] ∧
      ∀ p ∈ statedKeys (Script.ofText text).statements o.graph.tables,
        Lands o.graph (statedKeys (Script.ofText text).statements o.graph.tables) p := by
  intro text
  let previous : Option Graph := some { tables := [{ id := "t1", name := "USERS" }] }
  have hp : ∀ g ∈ previous, g.PlainIds := by
    intro g hg
    obtain rfl := Option.some.inj hg
    exact ⟨by decide, by decide⟩
  have hread : (Script.ofText text).statements =
      [.createTable { name := "users", line := 1, columns := [{ name := "id", typeName := "INT" }] },
        .createTable {
          name := "orders"
          line := 2
          columns := [{
            name := "user_id", typeName := "INT"
            reference := some ⟨"users", ["id"], none, none⟩ }]
          foreignKeys := [⟨["USER_ID"], ⟨"Users", ["id"], none, none⟩⟩] },
        .alterForeignKey "Orders" ⟨["user_id"], ⟨"clients", ["code"], none, none⟩⟩] := by
    rw [Script.ofText_ofList]
    decide +kernel
  have h := recover_of_statements hread previous (by decide)
  have hkept := recover_keepsKeys hp h (by decide)
  rw [hread] at hkept ⊢
  exact ⟨_, h, by decide, hkept⟩

/-- A key without a target is lost when a later key of its column has one. -/
theorem recover_keepsKeys_clients :
    let text := "CREATE TABLE users (id INT);
CREATE TABLE orders (user_id INT REFERENCES clients(id), FOREIGN KEY (user_id) REFERENCES users(id));"
    ∃ o, recover text none = .ok o ∧
      (∀ t ∈ o.graph.tables, ∀ c ∈ t.columns, '|' ∉ c.title.toList) ∧
      ∃ p ∈ statedKeys (Script.ofText text).statements o.graph.tables,
        keyTarget? o.graph.tables p = none ∧
          ∀ t ∈ o.graph.tables, ∀ c ∈ t.columns, ¬KeepsOpen c p := by
  intro text
  have hread : (Script.ofText text).statements =
      [.createTable { name := "users", line := 1, columns := [{ name := "id", typeName := "INT" }] },
        .createTable {
          name := "orders"
          line := 2
          columns := [{
            name := "user_id", typeName := "INT"
            reference := some ⟨"clients", ["id"], none, none⟩ }]
          foreignKeys := [⟨["user_id"], ⟨"users", ["id"], none, none⟩⟩] }] := by
    rw [Script.ofText_ofList]
    decide +kernel
  have h := recover_of_statements hread none (by decide)
  rw [hread]
  exact ⟨_, h, by decide, by decide⟩

end DdlGraph.Recovery
