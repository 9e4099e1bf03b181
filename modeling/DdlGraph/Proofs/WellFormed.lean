import DdlGraph.Proofs.TablePhases

/-!
# Recovered graphs are well-formed

The targets of foreign keys are looked for last, in tables that have all their columns and
constraints. What an edge says of its two columns then stays true, since a foreign key that is set
later changes neither titles nor constraints (`Keeps`).

* `Graph.WellFormed`: names, ids, constraints and edges of a graph;
* `resolveKey_step`, `foldl_resolveKey`: what one foreign key does, and what all of them do;
* `recover_wellFormed`: a recovered graph is well-formed, and its tables are those of the first
  definitions.
-/

namespace DdlGraph

/-- **Edge of a foreign key**: it joins two columns, the first refers to something, and the
cardinality says which of them are unique. -/
def Edge.JoinsColumns (g : Graph) (e : Edge) : Prop :=
  ∃ t ∈ g.tables, ∃ c ∈ t.columns, ∃ t' ∈ g.tables, ∃ c' ∈ t'.columns,
    e.source = t.id ∧ e.sourceHandle = sourceHandleFor c.title ∧
      e.target = t'.id ∧ e.targetHandle = targetHandleFor c'.title ∧
      c.foreignKey.isSome ∧ e.cardinality = .ofUniqueness c.isUnique c'.isUnique

/-- **Edge of an enumeration**: it joins the enumeration to a column of its type. -/
def Edge.JoinsEnum (g : Graph) (e : Edge) : Prop :=
  ∃ n ∈ g.enums, ∃ t ∈ g.tables, ∃ c ∈ t.columns,
    e.source = n.id ∧ e.sourceHandle = sourceHandleFor n.name ∧
      e.target = t.id ∧ e.targetHandle = targetHandleFor c.title ∧
      Text.sameAscii c.dataType n.columnType ∧ e.cardinality = .oneToMany

/-- **Well-formed graph**: nothing is there twice, and edges join what is there. -/
structure Graph.WellFormed (g : Graph) : Prop where
  nonempty : g.tables ≠ []
  tableIds : (g.tables.map (·.id)).Nodup
  tableNames : (g.tables.map fun t => Text.lower t.name).Nodup
  tables : ∀ t ∈ g.tables, t.Ok
  enums : EnumsOk g.enums
  keyEdges : ∀ e ∈ g.edges, e.enumLink = false → e.JoinsColumns g
  enumEdges : ∀ e ∈ g.edges, e.enumLink = true → e.JoinsEnum g
  edgeKeys : (g.edges.map Edge.key).Nodup
  edgeIds : ∀ e ∈ g.edges, e.id = edgeId e.key

/-! ## Foreign keys in columns -/

/-- Each table stays, with columns of the same titles and constraints, and no column loses what it
refers to. -/
def Keeps (tables tables' : List Table) : Prop :=
  ∀ t ∈ tables, ∃ t' ∈ tables', t'.id = t.id ∧ ∀ c ∈ t.columns, ∃ c' ∈ t'.columns,
    c'.title = c.title ∧ c'.constraints = c.constraints ∧
      (c.foreignKey.isSome → c'.foreignKey.isSome)

theorem Keeps.refl (tables : List Table) : Keeps tables tables :=
  fun t ht => ⟨t, ht, rfl, fun c hc => ⟨c, hc, rfl, rfl, id⟩⟩

theorem Table.title_of_column? {t : Table} {title : String} {c : Column}
    (h : t.column? title = some c) : c.title = title := by
  have ht := List.find?_some h
  exact beq_iff_eq.1 ht

theorem id_of_tableById? {tables : List Table} {id : String} {t : Table}
    (h : tableById? tables id = some t) : t.id = id := by
  have ht := List.find?_some h
  exact beq_iff_eq.1 ht

theorem sameAscii_of_enumByName? {enums : List Enumeration} {name : String} {e : Enumeration}
    (h : enumByName? enums name = some e) : Text.sameAscii e.name name = true := by
  have he := List.find?_some h
  exact he

theorem isUnique_congr {c c' : Column} (h : c'.constraints = c.constraints) :
    c'.isUnique = c.isUnique := by
  unfold Column.isUnique Column.isPrimary Column.has
  rw [h]

namespace Recovery

open Sql

/-- The table, with what its column `title` refers to. -/
def setKey (title : String) (k : ForeignKey) (t : Table) : Table :=
  match t.findColumn? title with
  | some c => t.updateColumn c.title fun c => { c with foreignKey := some k }
  | none => t

theorem outline_setKey (title : String) (k : ForeignKey) (t : Table) :
    (setKey title k t).outline = t.outline := by
  unfold setKey
  split
  · refine Table.outline_updateColumn (fun c => ?_) _ _
    rfl
  · rfl

theorem ok_setKey (title : String) (k : ForeignKey) {t : Table} (ht : t.Ok) :
    (setKey title k t).Ok := by
  unfold setKey
  split
  · refine ht.updateColumn (fun c => ?_) (fun c hc => ?_) _
    · rfl
    · exact hc
  · exact ht

theorem setKey_keeps (title : String) (k : ForeignKey) (t : Table) :
    ∀ c ∈ t.columns, ∃ c' ∈ (setKey title k t).columns, c'.title = c.title ∧
      c'.constraints = c.constraints ∧ (c.foreignKey.isSome → c'.foreignKey.isSome) := by
  intro c hc
  unfold setKey
  split
  · rcases mem_updateFirst_of_mem hc with hc' | hc'
    · exact ⟨c, hc', rfl, rfl, id⟩
    · exact ⟨_, hc', rfl, rfl, fun _ => rfl⟩
  · exact ⟨c, hc, rfl, rfl, id⟩

/-- The column that is asked for refers to something then. -/
theorem setKey_source {title : String} {t : Table} {c : Column} (h : t.column? title = some c)
    (k : ForeignKey) : { c with foreignKey := some k } ∈ (setKey title k t).columns := by
  have hfind : t.findColumn? title = some c := by
    unfold Table.findColumn?
    rw [h]
    rfl
  unfold setKey
  rw [hfind]
  obtain rfl := Table.title_of_column? h
  exact mem_updateFirst_of_find? h

theorem keeps_updateFirst (p : Table → Bool) (title : String) (k : ForeignKey)
    (tables : List Table) : Keeps tables (updateFirst p (setKey title k) tables) := by
  intro t ht
  rcases mem_updateFirst_of_mem ht with ht' | ht'
  · exact ⟨t, ht', rfl, fun c hc => ⟨c, hc, rfl, rfl, id⟩⟩
  · have hid : (setKey title k t).outline.id = t.outline.id :=
      congrArg Table.id (outline_setKey title k t)
    exact ⟨_, ht', hid, setKey_keeps title k t⟩

/-! ## Links -/

/-- A link that a foreign key asks for, as `Edge.JoinsColumns` has it. -/
def KeyLink (tables : List Table) (l : Link) : Prop :=
  ∃ t ∈ tables, ∃ c ∈ t.columns, ∃ t' ∈ tables, ∃ c' ∈ t'.columns,
    l.source = t.id ∧ l.sourceColumn = c.title ∧ l.target = t'.id ∧ l.targetColumn = c'.title ∧
      c.foreignKey.isSome ∧ l.cardinality = .ofUniqueness c.isUnique c'.isUnique ∧
      l.enumLink = false

theorem KeyLink.mono {tables tables' : List Table} {l : Link} (h : KeyLink tables l)
    (hk : Keeps tables tables') : KeyLink tables' l := by
  obtain ⟨t, ht, c, hc, t', ht', c', hc', hs, hsc, hg, hgc, hkey, hcard, hlink⟩ := h
  obtain ⟨u, hu, huid, hucols⟩ := hk t ht
  obtain ⟨d, hd, hdtitle, hdcons, hdkey⟩ := hucols c hc
  obtain ⟨u', hu', huid', hucols'⟩ := hk t' ht'
  obtain ⟨d', hd', hdtitle', hdcons', -⟩ := hucols' c' hc'
  refine ⟨u, hu, d, hd, u', hu', d', hd', hs.trans huid.symm, hsc.trans hdtitle.symm,
    hg.trans huid'.symm, hgc.trans hdtitle'.symm, hdkey hkey, ?_, hlink⟩
  rw [isUnique_congr hdcons, isUnique_congr hdcons']
  exact hcard

namespace Draft

theorem resolveKey_eq (d : Draft) (links : List Link) (p : PendingKey) :
    resolveKey (d, links) p =
      match d.source? p with
      | none => (d, links)
      | some source =>
        let d' := d.updateTable p.tableId (setKey p.column (foreignKeyOf p (d.target? p)))
        match d.target? p with
        | some t => (d', links ++ [linkOf p source t])
        | none =>
          (d'.warn (.unresolved (d.tableName p.tableId) p.column p.reference.table
            p.targetColumn), links) :=
  rfl

theorem mem_of_source? {d : Draft} {p : PendingKey} {c : Column} (h : d.source? p = some c) :
    ∃ t, tableById? d.tables p.tableId = some t ∧ t.id = p.tableId ∧ t.column? p.column = some c := by
  obtain ⟨t, ht, hc⟩ := Option.bind_eq_some_iff.1 h
  exact ⟨t, ht, id_of_tableById? ht, hc⟩

theorem mem_of_target? {d : Draft} {p : PendingKey} {t : Table} {c : Column}
    (h : d.target? p = some (t, c)) : t ∈ d.tables ∧ c ∈ t.columns := by
  obtain ⟨id, -, h⟩ := Option.bind_eq_some_iff.1 h
  obtain ⟨t', ht, h⟩ := Option.bind_eq_some_iff.1 h
  obtain ⟨c', hc, h⟩ := Option.bind_eq_some_iff.1 h
  obtain ⟨rfl, rfl⟩ := Prod.mk.inj (Option.some.inj h)
  refine ⟨List.mem_of_find?_eq_some ht, ?_⟩
  rcases Option.or_eq_some_iff.1 hc with hc | ⟨-, hc⟩
  · exact List.mem_of_find?_eq_some hc
  · exact List.mem_of_find?_eq_some hc

/-- **One foreign key** changes no outline, keeps the links before, and adds a right one. -/
theorem resolveKey_step {d : Draft} {links : List Link} (h : ∀ l ∈ links, KeyLink d.tables l)
    (p : PendingKey) : LateStep d (resolveKey (d, links) p).1 ∧
      ∀ l ∈ (resolveKey (d, links) p).2, KeyLink (resolveKey (d, links) p).1.tables l := by
  have hupdate : LateStep d (d.updateTable p.tableId
      (setKey p.column (foreignKeyOf p (d.target? p)))) :=
    .updateTable d p.tableId (outline_setKey _ _) fun t ht => ok_setKey _ _ ht
  have hkeeps : Keeps d.tables (d.updateTable p.tableId
      (setKey p.column (foreignKeyOf p (d.target? p)))).tables :=
    keeps_updateFirst _ _ _ _
  have hbefore := fun l hl => (h l hl).mono hkeeps
  rw [resolveKey_eq]
  split
  · exact ⟨.refl d, h⟩
  · rename_i c hc
    dsimp only
    split
    · rename_i target htarget
      obtain ⟨t', c'⟩ := target
      refine ⟨hupdate, fun l hl => ?_⟩
      rcases List.mem_append.1 hl with hl | hl
      · exact hbefore l hl
      · obtain rfl := List.mem_singleton.1 hl
        obtain ⟨t, ht, hid, hcol⟩ := mem_of_source? hc
        obtain ⟨htm, hcm⟩ := mem_of_target? htarget
        let key := foreignKeyOf p (d.target? p)
        have hsource : setKey p.column key t ∈ (d.updateTable p.tableId _).tables :=
          mem_updateFirst_of_find? ht
        have hsid : (setKey p.column key t).outline.id = t.outline.id :=
          congrArg Table.id (outline_setKey p.column key t)
        have htitle : c.title = p.column := Table.title_of_column? hcol
        obtain ⟨u', hu', huid', hucols'⟩ := hkeeps t' htm
        obtain ⟨d', hd', hdtitle', hdcons', -⟩ := hucols' c' hcm
        refine ⟨_, hsource, _, setKey_source hcol _, u', hu', d', hd', hid.symm.trans hsid.symm,
          htitle.symm, huid'.symm, hdtitle'.symm, rfl, ?_, rfl⟩
        rw [isUnique_congr hdcons']
        rfl
    · exact ⟨hupdate.trans ⟨rfl, fun h => h, rfl, rfl, rfl, rfl⟩, hbefore⟩

theorem foldl_resolveKey (pending : List PendingKey) {d : Draft} {links : List Link}
    (h : ∀ l ∈ links, KeyLink d.tables l) : LateStep d (pending.foldl resolveKey (d, links)).1 ∧
      ∀ l ∈ (pending.foldl resolveKey (d, links)).2,
        KeyLink (pending.foldl resolveKey (d, links)).1.tables l := by
  induction pending generalizing d links with
  | nil => exact ⟨.refl d, h⟩
  | cons p rest ih =>
    obtain ⟨hs, hl⟩ := resolveKey_step h p
    obtain ⟨hs', hl'⟩ := ih hl
    exact ⟨hs.trans hs', hl'⟩

theorem lateStep_links (d : Draft) : LateStep d d.links.1 := by
  have hnil : ∀ l ∈ [], KeyLink d.tables l := fun _ hl => nomatch hl
  exact (foldl_resolveKey d.pending hnil).1

/-- **The draft of a script** after its last phase, with the links of its foreign keys. -/
theorem complete_links (previous : Option Graph) (statements : List Statement) :
    Complete previous (firstDefinitions statements) (ofStatements previous statements).links.1 ∧
      ∀ l ∈ (ofStatements previous statements).links.2,
        KeyLink (ofStatements previous statements).links.1.tables l ∨
          ∃ u ∈ (ofStatements previous statements).links.1.enumUses, l = enumLinkOf u := by
  have hc := complete_ofStatements previous statements
  have hnil : ∀ l ∈ [], KeyLink (ofStatements previous statements).tables l :=
    fun _ h => nomatch h
  obtain ⟨hs, hl⟩ := foldl_resolveKey (ofStatements previous statements).pending hnil
  refine ⟨hc.lateStep hs, fun l hm => ?_⟩
  rcases List.mem_append.1 hm with hm | hm
  · exact .inl (hl l hm)
  · obtain ⟨u, hu, rfl⟩ := List.mem_map.1 hm
    exact .inr ⟨u, hs.uses ▸ hu, rfl⟩

end Draft

/-! ## Edges -/

theorem mem_reconcileAfter {styles : List (String × EdgeStyle)} {seen : List String}
    {links : List Link} {e : Edge} (h : e ∈ reconcileAfter styles seen links) :
    ∃ l ∈ links, e = l.toEdge styles := by
  induction links generalizing seen with
  | nil => cases h
  | cons l rest ih =>
    unfold reconcileAfter at h
    split at h
    · obtain ⟨l', hl', he⟩ := ih h
      exact ⟨l', .tail _ hl', he⟩
    · rcases List.mem_cons.1 h with rfl | h
      · exact ⟨l, .head _, rfl⟩
      · obtain ⟨l', hl', he⟩ := ih h
        exact ⟨l', .tail _ hl', he⟩

theorem KeyLink.joinsColumns {g : Graph} {l : Link} (h : KeyLink g.tables l)
    (styles : List (String × EdgeStyle)) :
    (l.toEdge styles).enumLink = false ∧ (l.toEdge styles).JoinsColumns g := by
  obtain ⟨t, ht, c, hc, t', ht', c', hc', hs, hsc, hg, hgc, hkey, hcard, hlink⟩ := h
  exact ⟨hlink, t, ht, c, hc, t', ht', c', hc', hs, congrArg sourceHandleFor hsc, hg,
    congrArg targetHandleFor hgc, hkey, hcard⟩

/-- A type that names the enumeration is its type, case left aside. -/
theorem sameAscii_columnType {c : Column} {e : Enumeration} {name : String}
    (h : c.enumName? = some name) (he : Text.sameAscii e.name name) :
    Text.sameAscii c.dataType e.columnType := by
  have hlist : c.dataType.toList = enumTypeMark.toList ++ name.toList := by
    unfold Column.enumName? at h
    split at h
    · rename_i rest hr
      split at h
      · cases h
      · obtain rfl := Option.some.inj h
        rw [hr, String.toList_ofList]
        rfl
    · cases h
  have hfold := congrArg String.toList (sameAscii_iff.1 he)
  rw [sameAscii_iff]
  simp only [Text.foldAscii, String.toList_ofList] at hfold
  simp only [Text.foldAscii, Enumeration.columnType, hlist, String.toList_append, List.map_append,
    hfold]

theorem EnumUse.Holds.joinsEnum {g : Graph} {u : EnumUse} (h : u.Holds g.tables g.enums)
    (styles : List (String × EdgeStyle)) :
    ((Draft.enumLinkOf u).toEdge styles).enumLink = true ∧
      ((Draft.enumLinkOf u).toEdge styles).JoinsEnum g := by
  obtain ⟨e, he, hid, hname, t, ht, htid, c, hc, htitle, hfound⟩ := h
  obtain ⟨name, hn, hf⟩ := Option.bind_eq_some_iff.1 hfound
  have hsame := sameAscii_of_enumByName? hf
  exact ⟨rfl, e, he, t, ht, c, hc, hid.symm, congrArg sourceHandleFor hname.symm, htid.symm,
    congrArg targetHandleFor htitle.symm, sameAscii_columnType hn hsame, rfl⟩

/-! ## Outcome -/

theorem recover_eq_ok_iff {text : String} {previous : Option Graph} {o : Outcome} :
    recover text previous = .ok o ↔
      (Draft.ofStatements previous (Script.ofText text).statements).links.1.tables ≠ [] ∧
        o = .ofDraft previous
          (Draft.ofStatements previous (Script.ofText text).statements).links.1
          (Draft.ofStatements previous (Script.ofText text).statements).links.2 := by
  unfold recover
  dsimp only
  split
  · rename_i h
    rw [List.isEmpty_iff] at h
    simp [h]
  · rename_i h
    rw [List.isEmpty_iff] at h
    simp [h, eq_comm]

/-- The outcome of a text whose statements are known. -/
theorem recover_of_statements {text : String} {statements : List Sql.Statement}
    (hread : (Script.ofText text).statements = statements) (previous : Option Graph)
    (hne : (Draft.ofStatements previous statements).links.1.tables ≠ []) :
    recover text previous = .ok (.ofDraft previous (Draft.ofStatements previous statements).links.1
      (Draft.ofStatements previous statements).links.2) := by
  subst hread
  exact recover_eq_ok_iff.2 ⟨hne, rfl⟩

/-- **A recovered graph is well-formed**, if the graph before has no table id twice. Its tables are
those of the first definitions of their names, in their order and column by column. -/
theorem recover_wellFormed {text : String} {previous : Option Graph} {o : Outcome}
    (distinct : ∀ g ∈ previous, (g.tables.map (·.id)).Nodup)
    (h : recover text previous = .ok o) :
    o.graph.WellFormed ∧
      List.Forall₂ RealizesTable (Draft.firstDefinitions (Script.ofText text).statements)
        o.graph.tables := by
  obtain ⟨hne, rfl⟩ := recover_eq_ok_iff.1 h
  obtain ⟨hc, hl⟩ := Draft.complete_links previous (Script.ofText text).statements
  generalize (Draft.ofStatements previous (Script.ofText text).statements).links = r at *
  refine ⟨?_, hc.realizes⟩
  have hedge : ∀ e ∈ (Outcome.ofDraft previous r.1 r.2).graph.edges,
      (e.enumLink = false ∧ e.JoinsColumns (Outcome.ofDraft previous r.1 r.2).graph ∨
        e.enumLink = true ∧ e.JoinsEnum (Outcome.ofDraft previous r.1 r.2).graph) ∧
        e.id = edgeId e.key := by
    intro e he
    obtain ⟨l, hlm, rfl⟩ := mem_reconcileAfter he
    refine ⟨?_, by rw [Link.key_toEdge]; rfl⟩
    rcases hl l hlm with hk | ⟨u, hu, rfl⟩
    · exact .inl (KeyLink.joinsColumns hk _)
    · have hu' : u.Holds (Outcome.ofDraft previous r.1 r.2).graph.tables
          (Outcome.ofDraft previous r.1 r.2).graph.enums := hc.sound.uses u hu
      exact .inr (hu'.joinsEnum _)
  constructor
  · exact hne
  · exact (hc.identified distinct).ids
  · exact hc.named.names
  · exact hc.ok
  · exact hc.sound.enums
  · intro e he hlink
    rcases (hedge e he).1 with ⟨-, hj⟩ | ⟨hlink', -⟩
    · exact hj
    · rw [hlink] at hlink'
      cases hlink'
  · intro e he hlink
    rcases (hedge e he).1 with ⟨hlink', -⟩ | ⟨-, hj⟩
    · rw [hlink] at hlink'
      cases hlink'
    · exact hj
  · exact (reconcileAfter_keys _ [] r.2).1
  · exact fun e he => (hedge e he).2

set_option maxRecDepth 2000 in
/-- An enumeration, a column of it and a foreign key between tables, one of which was there before
under another case of its name. -/
theorem recover_wellFormed_orders :
    ∃ o, recover "CREATE TYPE state AS ENUM ('open', 'paid');
        CREATE TABLE users (id INT PRIMARY KEY);
        CREATE TABLE orders (id INT, state state, user_id INT REFERENCES Users(ID));"
      (some { tables := [{ id := "table-users", name := "USERS" }] }) = .ok o ∧
      o.graph.WellFormed := by
  let text := "CREATE TYPE state AS ENUM ('open', 'paid');
        CREATE TABLE users (id INT PRIMARY KEY);
        CREATE TABLE orders (id INT, state state, user_id INT REFERENCES Users(ID));"
  let previous : Option Graph := some { tables := [{ id := "table-users", name := "USERS" }] }
  have distinct : ∀ g ∈ previous, (g.tables.map (·.id)).Nodup := by
    intro g hg
    obtain rfl := Option.some.inj hg
    exact List.nodup_singleton _
  obtain ⟨statements, hread, hne⟩ : ∃ statements, (Script.ofText text).statements = statements ∧
      (Draft.ofStatements previous statements).links.1.tables ≠ [] :=
    ⟨_, Script.statements_ofList _, by decide +kernel⟩
  have h := recover_of_statements hread previous hne
  exact ⟨_, h, (recover_wellFormed distinct h).1⟩

end Recovery

end DdlGraph
