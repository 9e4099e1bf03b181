import DdlGraph.Proofs.NamedSheet

/-!
# Links without ids

The targets of foreign keys are looked for on a sheet as in the draft that says it. The links that
are found join the same columns; a draft has ids for the names of their ends.

* `Sheet.links`: the last phase on a sheet;
* `Says.resolve`: what one foreign key does;
* `says_links`: the sheet and the links of a script, whatever the graph before.
-/

namespace DdlGraph.Recovery

open Sql

namespace Sheet

/-- The column that a foreign key comes from. -/
def source? (s : Sheet) (k : NamedKey) : Option Column :=
  (s.table? k.table).bind (·.column? k.column)

/-- The table and the column that a foreign key goes to. -/
def target? (s : Sheet) (k : NamedKey) : Option (Table × Column) :=
  (s.table? k.reference.table).bind fun t => (t.findColumn? k.targetColumn).map fun c => (t, c)

/-- What the source column holds. -/
def foreignKeyOf (k : NamedKey) (target : Option (Table × Column)) : ForeignKey :=
  Draft.foreignKeyOf (k.at "") target

/-- The link of a foreign key, with names in place of ids. -/
def linkOf (k : NamedKey) (source : Column) (target : Table × Column) : Link where
  source := k.table
  sourceColumn := k.column
  target := target.1.name
  targetColumn := target.2.title
  cardinality := .ofUniqueness source.isUnique target.2.isUnique

/-- **One foreign key** is set in its column, and gives a link if its target is there. -/
def resolve (r : Sheet × List Link) (k : NamedKey) : Sheet × List Link :=
  match r.1.source? k with
  | none => r
  | some source =>
    let s := r.1.onTable k.table (setKey k.column (foreignKeyOf k (r.1.target? k)))
    match r.1.target? k with
    | some target => (s, r.2 ++ [linkOf k source target])
    | none =>
      (s.warn (.unresolved k.table k.column k.reference.table k.targetColumn), r.2)

/-- The link of an enumeration to a column of it, with names in place of ids. -/
def enumLinkOf (u : NamedUse) : Link where
  source := u.enumName
  sourceColumn := u.enumName
  target := u.table
  targetColumn := u.column
  cardinality := .oneToMany
  enumLink := true

/-- **Links** of the sheet: foreign keys first, then enumerations. -/
def links (s : Sheet) : Sheet × List Link :=
  let r := s.keys.foldl resolve (s, [])
  (r.1, r.2 ++ s.uses.map enumLinkOf)

end Sheet

namespace Draft

/-- **The draft says the link** by the ids of its ends. -/
inductive SaysLink (d : Draft) : Link → Link → Prop
  | key {n : Link} {source target : String} (kind : n.enumLink = false)
      (hs : d.HasTable n.source source) (ht : d.HasTable n.target target) :
      SaysLink d n { n with source, target }
  | enumeration {n : Link} {source target : String} (kind : n.enumLink = true)
      (name : n.sourceColumn = n.source) (hs : d.HasEnum n.source source)
      (ht : d.HasTable n.target target) : SaysLink d n { n with source, target }

theorem KeepsIds.links {d d' : Draft} (h : KeepsIds d d') {ns ls : List Link}
    (hl : List.Forall₂ d.SaysLink ns ls) : List.Forall₂ d'.SaysLink ns ls := by
  refine hl.imp fun n l hn => ?_
  cases hn with
  | key kind hs ht => exact .key kind (h.tables _ _ hs) (h.tables _ _ ht)
  | enumeration kind name hs ht =>
    exact .enumeration kind name (h.enums _ _ hs) (h.tables _ _ ht)

theorem bare_setKey (title : String) (k : ForeignKey) (t : Table) :
    (setKey title k t).bare = setKey title k t.bare := by
  have hfind : t.bare.findColumn? title = t.findColumn? title := rfl
  unfold setKey
  rw [hfind]
  cases t.findColumn? title <;> rfl

section
variable {previous : Option Graph} {s : Sheet} {d : Draft} (h : Says previous s d)
include h

theorem Says.table?_of_mem {t : Table} (ht : t ∈ d.tables) : s.table? t.name = some t.bare := by
  have hfound := find?_of_nodup h.named.names ht
    (p := fun u => Text.lower u.name == Text.lower t.name) (beq_self_eq_true _)
    fun _ _ he => eq_of_beq he
  rw [h.table?_eq, hfound]
  rfl

/-- The target of a key, in the draft and on the sheet. -/
theorem Says.target?_eq (k : NamedKey) (id : String) :
    s.target? k = (d.target? (k.at id)).map fun x => (x.1.bare, x.2) := by
  unfold Sheet.target? Draft.target?
  change _ = Option.map _ ((d.tableId? k.reference.table).bind _)
  rcases h.table?_cases k.reference.table with ⟨hid, hs⟩ | ⟨t, -, -, hid, hfound, hs⟩
  · rw [hid, hs]
    rfl
  · have hfind : t.bare.findColumn? k.targetColumn = t.findColumn? k.targetColumn := rfl
    rw [hid, hs, Option.bind_some, Option.bind_some, hfind]
    simp only [hfound, Option.bind_eq_bind, Option.bind_some, NamedKey.at]
    cases t.findColumn? k.targetColumn <;> rfl

/-- **One foreign key** is resolved on the sheet as in the draft. -/
theorem Says.resolve {ns ls : List Link} (hl : List.Forall₂ d.SaysLink ns ls) {k : NamedKey}
    {p : PendingKey} (hk : d.SaysKey k p) :
    Says previous (Sheet.resolve (s, ns) k).1 (resolveKey (d, ls) p).1 ∧
      List.Forall₂ (resolveKey (d, ls) p).1.SaysLink (Sheet.resolve (s, ns) k).2
        (resolveKey (d, ls) p).2 := by
  obtain ⟨id, ⟨t, ht, hname, rfl⟩, rfl⟩ := hk
  have hfound := tableById?_of_nodup h.identified.ids ht
  have hsource : d.source? (k.at t.id) = t.column? k.column := by
    unfold source? NamedKey.at
    rw [hfound]
    rfl
  have hnamed : s.source? k = t.column? k.column := by
    unfold Sheet.source?
    rw [← hname, h.table?_of_mem ht]
    rfl
  have htarget := h.target?_eq k t.id
  have hkey : foreignKeyOf (k.at t.id) (d.target? (k.at t.id)) =
      Sheet.foreignKeyOf k (s.target? k) := by
    unfold Sheet.foreignKeyOf
    rw [htarget]
    cases d.target? (k.at t.id) <;> rfl
  have hupdate : LateStep d (d.updateTable t.id
      (setKey k.column (Sheet.foreignKeyOf k (s.target? k)))) :=
    .updateTable d t.id (outline_setKey _ _) fun t ht => ok_setKey _ _ ht
  have hset : Says previous
      (s.onTable k.table (setKey k.column (Sheet.foreignKeyOf k (s.target? k))))
      (d.updateTable t.id (setKey k.column (Sheet.foreignKeyOf k (s.target? k)))) :=
    h.lateStep hupdate (h.updateTable ht (congrArg Text.lower hname) (bare_setKey _ _)) rfl
      (hupdate.keepsIds.keys h.keys) rfl h.warnings
  rw [resolveKey_eq, hsource, hkey]
  unfold Sheet.resolve
  dsimp only
  rw [hnamed]
  generalize Sheet.foreignKeyOf k (s.target? k) = key at hset hupdate ⊢
  cases t.column? k.column with
  | none => exact ⟨h, hl⟩
  | some c =>
    have hlinks := hupdate.keepsIds.links hl
    dsimp only
    cases hd : d.target? (k.at t.id) with
    | none =>
      rw [hd, Option.map_none] at htarget
      have htable : d.tableName (k.at t.id).tableId = k.table := by
        unfold tableName NamedKey.at
        rw [hfound]
        exact hname
      rw [htarget]
      dsimp only
      rw [htable]
      have hwarn : ∀ w, LateStep (d.updateTable t.id (setKey k.column key))
          ((d.updateTable t.id (setKey k.column key)).warn w) :=
        fun _ => ⟨rfl, id, rfl, rfl, rfl, rfl⟩
      exact ⟨hset.warn _, (hwarn _).keepsIds.links hlinks⟩
    | some x =>
      obtain ⟨u, c'⟩ := x
      obtain ⟨hu, -⟩ := mem_of_target? hd
      rw [hd, Option.map_some] at htarget
      have hlink : d.SaysLink (Sheet.linkOf k c (u.bare, c')) (linkOf (k.at t.id) c (u, c')) :=
        .key rfl ⟨t, ht, hname, rfl⟩ ⟨u, hu, rfl, rfl⟩
      rw [htarget]
      exact ⟨hset, List.rel_append hlinks (hupdate.keepsIds.links (.cons hlink .nil))⟩

end

theorem lateStep_resolveKey (d : Draft) (links : List Link) (p : PendingKey) :
    LateStep d (resolveKey (d, links) p).1 := by
  have hnil : ∀ l ∈ [], KeyLink d.tables l := fun _ hl => nomatch hl
  have hsame : (resolveKey (d, links) p).1 = (resolveKey (d, []) p).1 := by
    rw [resolveKey_eq, resolveKey_eq]
    cases d.source? p with
    | none => rfl
    | some c => cases d.target? p <;> rfl
  exact hsame ▸ (resolveKey_step hnil p).1

/-- **All foreign keys** are resolved on the sheet as in the draft. -/
theorem Says.foldl_resolve {previous : Option Graph} {ks : List NamedKey} {ps : List PendingKey}
    {s : Sheet} {d : Draft} (hk : List.Forall₂ d.SaysKey ks ps) (h : Says previous s d)
    {ns ls : List Link} (hl : List.Forall₂ d.SaysLink ns ls) :
    Says previous (ks.foldl Sheet.resolve (s, ns)).1 (ps.foldl resolveKey (d, ls)).1 ∧
      List.Forall₂ (ps.foldl resolveKey (d, ls)).1.SaysLink (ks.foldl Sheet.resolve (s, ns)).2
        (ps.foldl resolveKey (d, ls)).2 := by
  induction ps generalizing ks s d ns ls with
  | nil =>
    cases hk
    exact ⟨h, hl⟩
  | cons p ps ih =>
    cases hk with
    | cons hp hps =>
      obtain ⟨hs, hlinks⟩ := h.resolve hl hp
      exact ih ((lateStep_resolveKey d ls p).keepsIds.keys hps) hs hlinks

/-- **The sheet and the links of a script**, whatever the graph before. -/
theorem says_links {previous : Option Graph}
    (distinct : ∀ g ∈ previous, (g.tables.map (·.id)).Nodup) {statements : List Statement}
    (h : Unlisted statements) :
    Says previous (Sheet.ofStatements statements).links.1
        (ofStatements previous statements).links.1 ∧
      List.Forall₂ (ofStatements previous statements).links.1.SaysLink
        (Sheet.ofStatements statements).links.2 (ofStatements previous statements).links.2 := by
  have hs := says_ofStatements distinct h
  obtain ⟨hfinal, hlinks⟩ := hs.foldl_resolve hs.keys .nil
  refine ⟨hfinal, List.rel_append hlinks ?_⟩
  rw [List.forall₂_map_left_iff, List.forall₂_map_right_iff]
  refine ((lateStep_links _).keepsIds.uses hs.uses).imp fun u v hu => ?_
  obtain ⟨enumId, id, he, ht, rfl⟩ := hu
  exact .enumeration rfl rfl he ht

end Draft

end DdlGraph.Recovery
