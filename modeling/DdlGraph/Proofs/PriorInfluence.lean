import DdlGraph.Proofs.DistinctIds
import DdlGraph.Proofs.JoinedColumns
import DdlGraph.Proofs.NamedLinks
import DdlGraph.Proofs.SilentLoss

/-!
# What the graph before has a say in

A text is read with or without a graph before. Both readings say what is on the same sheet, and so
they differ in ids, places, colours and the looks of edges only: the graph before makes no text
readable or unreadable, and no table, no column and no warning comes from it. The ids of one reading
are those of the other under a *renaming*, unless two enumerations take the identity of the same one
of the graph before; then their edges come from one id.

* `Graph.renamedBy_iff`: a map of ids is a renaming exactly if the ids stay different;
* `key_eq_iff`: two links have the same key just if their ends have the same names;
* `forall₂_reconcileAfter`: edges of links that have the same keys among themselves;
* `recover_previous`: both readings;
* `recover_previous_shared`: a text that is read as another one.
-/

namespace DdlGraph

/-! ## Bars -/

theorem bar_not_mem_numberedId {kind name id : String} (h : NumberedId (IdPool.baseId kind name) id)
    (hk : '|' ∉ kind.toList) : '|' ∉ id.toList := by
  have hbase := bar_not_mem_baseId hk name
  rcases h with rfl | ⟨n, -, rfl⟩
  · exact hbase
  · simp only [String.toList_append, List.mem_append, not_or]
    exact ⟨⟨hbase, by decide⟩, bar_not_mem_toString n⟩

/-- **No bars** in ids, names of enumerations and titles. -/
def Graph.NoBars (g : Graph) : Prop :=
  (∀ t ∈ g.tables, '|' ∉ t.id.toList ∧ ∀ c ∈ t.columns, '|' ∉ c.title.toList) ∧
    ∀ e ∈ g.enums, '|' ∉ e.id.toList ∧ '|' ∉ e.name.toList

instance (g : Graph) : Decidable g.NoBars :=
  inferInstanceAs (Decidable (_ ∧ _))

/-- Without a graph before, no id has a bar. -/
theorem Graph.KeepsIdentity.ids_noBars {g : Graph} (h : ({} : Graph).KeepsIdentity g) :
    (∀ t ∈ g.tables, '|' ∉ t.id.toList) ∧ ∀ e ∈ g.enums, '|' ∉ e.id.toList := by
  constructor
  · intro t ht
    obtain ⟨k, hk⟩ := List.getElem?_of_mem ht
    exact bar_not_mem_numberedId (h.tables k t hk).1 (by decide)
  · intro e he
    obtain ⟨k, hk⟩ := List.getElem?_of_mem he
    exact bar_not_mem_numberedId (h.enums k e hk).1 (by decide)

/-! ## Names and ids of a draft -/

namespace Recovery

open Sql

namespace Draft

/-- **Names stand for ids**: ids of tables are different, and so are names; no table has the id of
an enumeration. -/
structure Names (d : Draft) : Prop where
  ids : (d.tables.map (·.id)).Nodup
  tables : (d.tables.map (·.name)).Nodup
  enums : (d.enums.map (·.name)).Nodup
  apart : ∀ t ∈ d.tables, ∀ e ∈ d.enums, t.id ≠ e.id

section
variable {d : Draft} (h : d.Names) {name name' id id' : String}
include h

theorem Names.table_id (hn : d.HasTable name id) (hn' : d.HasTable name id') : id = id' := by
  obtain ⟨t, ht, rfl, rfl⟩ := hn
  obtain ⟨t', ht', hname, rfl⟩ := hn'
  rw [List.inj_on_of_nodup_map h.tables ht' ht hname]

theorem Names.table_name (hn : d.HasTable name id) (hn' : d.HasTable name' id) : name = name' := by
  obtain ⟨t, ht, rfl, rfl⟩ := hn
  obtain ⟨t', ht', rfl, hid⟩ := hn'
  rw [List.inj_on_of_nodup_map h.ids ht' ht hid]

theorem Names.enum_id (hn : d.HasEnum name id) (hn' : d.HasEnum name id') : id = id' := by
  obtain ⟨e, he, rfl, rfl⟩ := hn
  obtain ⟨e', he', hname, rfl⟩ := hn'
  rw [List.inj_on_of_nodup_map h.enums he' he hname]

theorem Names.table_ne_enum (hn : d.HasTable name id) (hn' : d.HasEnum name' id) : False := by
  obtain ⟨t, ht, -, rfl⟩ := hn
  obtain ⟨e, he, -, hid⟩ := hn'
  exact h.apart t ht e he hid.symm

/-- **Keys of links**: they are the same just if the names of the ends are. -/
theorem Names.key_eq_iff {n m l k : Link} (hl : d.SaysLink n l) (hk : d.SaysLink m k)
    (plain : l.Plain) (plain' : k.Plain) :
    l.key = k.key ↔ n.ends = m.ends ∧ n.enumLink = m.enumLink := by
  have hkey : l.key = k.key ↔ l.ends = k.ends :=
    ⟨Link.ends_of_key plain plain', Link.key_of_ends⟩
  rw [hkey]
  unfold Link.ends
  simp only [Prod.mk.injEq]
  cases hl with
  | key kind hs ht =>
    cases hk with
    | key kind' hs' ht' =>
      rw [kind, kind']
      constructor
      · rintro ⟨rfl, hcolumn, rfl, hcolumn'⟩
        exact ⟨⟨h.table_name hs hs', hcolumn, h.table_name ht ht', hcolumn'⟩, rfl⟩
      · rintro ⟨⟨hsource, hcolumn, htarget, hcolumn'⟩, -⟩
        rw [hsource] at hs
        rw [htarget] at ht
        exact ⟨h.table_id hs hs', hcolumn, h.table_id ht ht', hcolumn'⟩
    | enumeration kind' name' hs' ht' =>
      rw [kind, kind']
      constructor
      · rintro ⟨rfl, -⟩
        exact (h.table_ne_enum hs hs').elim
      · rintro ⟨-, hkind⟩
        cases hkind
  | enumeration kind name hs ht =>
    cases hk with
    | key kind' hs' ht' =>
      rw [kind, kind']
      constructor
      · rintro ⟨rfl, -⟩
        exact (h.table_ne_enum hs' hs).elim
      · rintro ⟨-, hkind⟩
        cases hkind
    | enumeration kind' name' hs' ht' =>
      rw [kind, kind']
      constructor
      · rintro ⟨-, hcolumn, rfl, hcolumn'⟩
        exact ⟨⟨name.symm.trans (hcolumn.trans name'), hcolumn, h.table_name ht ht', hcolumn'⟩, rfl⟩
      · rintro ⟨⟨hsource, hcolumn, htarget, hcolumn'⟩, -⟩
        rw [hsource] at hs
        rw [htarget] at ht
        exact ⟨h.enum_id hs hs', hcolumn, h.table_id ht ht', hcolumn'⟩

end

/-- The ends of links are plain, if there are no bars. -/
theorem plain_of_mem_links (previous : Option Graph) (statements : List Statement)
    (hbars : Graph.NoBars { tables := (ofStatements previous statements).links.1.tables
                            enums := (ofStatements previous statements).links.1.enums }) :
    ∀ l ∈ (ofStatements previous statements).links.2, l.Plain := by
  intro l hl
  obtain ⟨hc, hlinks⟩ := complete_links previous statements
  obtain ⟨htables, henums⟩ := hbars
  rcases hlinks l hl with ⟨t, ht, c, hc', t', ht', c', -, hs, hsc, hg, -⟩ | ⟨u, hu, rfl⟩
  · exact ⟨hs ▸ (htables t ht).1, hsc ▸ (htables t ht).2 c hc', hg ▸ (htables t' ht').1⟩
  · obtain ⟨e, he, hid, hname, t, ht, htid, -⟩ := hc.sound.uses u hu
    have hsource : e.id = (enumLinkOf u).source := hid
    have hcolumn : e.name = (enumLinkOf u).sourceColumn := hname
    have htarget : t.id = (enumLinkOf u).target := htid
    exact ⟨hsource ▸ (henums e he).1, hcolumn ▸ (henums e he).2, htarget ▸ (htables t ht).1⟩

end Draft

end Recovery

/-! ## Edges of links -/

/-- **Edges of two lists of links** that have the same keys among themselves. -/
theorem forall₂_reconcileAfter {R : Link → Link → Prop} {styles styles' : List (String × EdgeStyle)}
    (hkey : ∀ l l' k k', R l l' → R k k' → (l.key = k.key ↔ l'.key = k'.key))
    {links links' : List Link} (h : List.Forall₂ R links links') {seen seen' : List String}
    (hseen : ∀ l l', R l l' → (l.key ∈ seen ↔ l'.key ∈ seen')) :
    List.Forall₂ (fun e e' => ∃ l l', R l l' ∧ e = l.toEdge styles ∧ e' = l'.toEdge styles')
      (reconcileAfter styles seen links) (reconcileAfter styles' seen' links') := by
  induction h generalizing seen seen' with
  | nil => exact .nil
  | @cons l l' links links' hl _ ih =>
    unfold reconcileAfter
    by_cases hm : l.key ∈ seen
    · have hm' := (hseen l l' hl).1 hm
      rw [if_pos (List.contains_iff_mem.2 hm), if_pos (List.contains_iff_mem.2 hm')]
      exact ih hseen
    · have hm' := mt (hseen l l' hl).2 hm
      rw [if_neg (mt List.contains_iff_mem.1 hm), if_neg (mt List.contains_iff_mem.1 hm')]
      refine .cons ⟨l, l', hl, rfl, rfl⟩ (ih fun k k' hk => ?_)
      rw [List.mem_cons, List.mem_cons, hseen k k' hk, hkey k k' l l' hk hl]

theorem forall₂_reconcileEdges {R : Link → Link → Prop} (previous previous' : List Edge)
    (hkey : ∀ l l' k k', R l l' → R k k' → (l.key = k.key ↔ l'.key = k'.key))
    {links links' : List Link} (h : List.Forall₂ R links links') :
    List.Forall₂ (fun e e' => ∃ l l', R l l' ∧ e = l.toEdge (stylesByKey previous) ∧
        e' = l'.toEdge (stylesByKey previous'))
      (reconcileEdges previous links) (reconcileEdges previous' links') :=
  forall₂_reconcileAfter hkey h fun _ _ _ => iff_of_false List.not_mem_nil List.not_mem_nil

/-! ## Renamed ids -/

/-- What depends on a part that is the same is the same. -/
theorem map_eq_of_map_eq {α β : Type} {g : α → α} {as bs : List α} (h : as.map g = bs.map g)
    (f : α → β) (hf : ∀ a, f (g a) = f a) : as.map f = bs.map f := by
  have hmap := congrArg (List.map f) h
  simpa only [List.map_map, Function.comp_def, hf] using hmap

/-- Ids that are all different can be renamed to any others. -/
theorem exists_renaming {ids ids' : List String} (hn : ids.Nodup) (hl : ids.length = ids'.length) :
    ∃ ρ : String → String, ids.map ρ = ids' := by
  refine ⟨fun id => ids'.getD (ids.idxOf id) "", List.ext_getElem ?_ fun i hi hi' => ?_⟩
  · rw [List.length_map, hl]
  · rw [List.length_map] at hi
    rw [List.getElem_map, hn.idxOf_getElem, List.getD_eq_getElem?_getD, List.getElem?_eq_getElem hi',
      Option.getD_some]

/-- What stands at the same place under a renaming. -/
theorem exists_mem_renamed {α : Type} {name id : α → String} {as as' : List α} {ρ : String → String}
    (hn : as.map name = as'.map name) (hi : (as.map id).map ρ = as'.map id) {a : α} (ha : a ∈ as) :
    ∃ a' ∈ as', name a' = name a ∧ id a' = ρ (id a) := by
  have hpairs : (as.map fun a => (name a, ρ (id a))) = as'.map fun a => (name a, id a) := by
    rw [← List.zip_map', ← List.zip_map', ← hn, ← hi, List.map_map]
    rfl
  have hm : (name a, ρ (id a)) ∈ as'.map fun a => (name a, id a) :=
    hpairs ▸ List.mem_map.2 ⟨a, ha, rfl⟩
  obtain ⟨a', ha', he⟩ := List.mem_map.1 hm
  exact ⟨a', ha', congrArg Prod.fst he, congrArg Prod.snd he⟩

namespace Recovery.Draft

/-- **Renaming of ids**, by which what has a name keeps its id. -/
structure Renames (ρ : String → String) (d d' : Draft) : Prop where
  tables : ∀ name id, d.HasTable name id → d'.HasTable name (ρ id)
  enums : ∀ name id, d.HasEnum name id → d'.HasEnum name (ρ id)

theorem exists_renames {d d' : Draft} (ht : d.tables.map Table.bare = d'.tables.map Table.bare)
    (he : d.enums.map Enumeration.bare = d'.enums.map Enumeration.bare)
    (hn : (d.tables.map (·.id) ++ d.enums.map (·.id)).Nodup) :
    ∃ ρ, d'.tables.map (·.id) ++ d'.enums.map (·.id) =
      (d.tables.map (·.id) ++ d.enums.map (·.id)).map ρ ∧ Renames ρ d d' := by
  have htables := congrArg List.length ht
  have henums := congrArg List.length he
  simp only [List.length_map] at htables henums
  obtain ⟨ρ, hρ⟩ := exists_renaming hn
    (show _ = (d'.tables.map (·.id) ++ d'.enums.map (·.id)).length by
      simp only [List.length_append, List.length_map, htables, henums])
  have hparts := hρ
  rw [List.map_append] at hparts
  obtain ⟨hids, hids'⟩ := List.append_inj hparts
    (by simp only [List.length_map, htables])
  refine ⟨ρ, hρ.symm, ?_, ?_⟩
  · rintro name id ⟨t, htm, rfl, rfl⟩
    exact exists_mem_renamed (map_eq_of_map_eq ht Table.name fun _ => rfl) hids htm
  · rintro name id ⟨e, hem, rfl, rfl⟩
    exact exists_mem_renamed (map_eq_of_map_eq he Enumeration.name fun _ => rfl) hids' hem

end Recovery.Draft

/-- Bars are in ids only, or in both graphs. -/
theorem Graph.KeepsIdentity.noBars {g g' : Graph} (h : ({} : Graph).KeepsIdentity g)
    (ht : g.tables.map Table.bare = g'.tables.map Table.bare)
    (he : g.enums.map Enumeration.bare = g'.enums.map Enumeration.bare) (hbars : g'.NoBars) :
    g.NoBars := by
  obtain ⟨htables, henums⟩ := h.ids_noBars
  refine ⟨fun t htm => ⟨htables t htm, ?_⟩, fun e hem => ⟨henums e hem, ?_⟩⟩
  · obtain ⟨t', htm', hb⟩ := exists_mem_of_map_eq ht.symm htm
    have hcolumns : t'.bare.columns = t.bare.columns := congrArg Table.columns hb
    exact (show t'.columns = t.columns from hcolumns) ▸ (hbars.1 t' htm').2
  · obtain ⟨e', hem', hb⟩ := exists_mem_of_map_eq he.symm hem
    have hname : e'.bare.name = e.bare.name := congrArg Enumeration.name hb
    exact (show e'.name = e.name from hname) ▸ (hbars.2 e' hem').2

/-! ## Two readings -/

/-- The edge between renamed ends, without its own id and its looks. -/
def Edge.renamed (ρ : String → String) (e : Edge) : Edge :=
  { e with id := "", source := ρ e.source, target := ρ e.target, style := {} }

/-- The ids of `g'` are those of `g` under a renaming, which keeps different ids apart. -/
structure Graph.RenamedBy (ρ : String → String) (g g' : Graph) : Prop where
  ids : g'.ids = g.ids.map ρ
  injective : ∀ a ∈ g.ids, ∀ b ∈ g.ids, ρ a = ρ b → a = b

/-- Ids that are mapped to others are renamed exactly if those are different too. -/
theorem Graph.renamedBy_iff {ρ : String → String} {g g' : Graph} (hids : g'.ids = g.ids.map ρ)
    (hn : g.ids.Nodup) : g.RenamedBy ρ g' ↔ g'.ids.Nodup := by
  rw [hids]
  constructor
  · intro h
    exact hn.map_on h.injective
  · intro h
    exact ⟨hids, fun _ ha _ hb hab => List.inj_on_of_nodup_map h ha hb hab⟩

/-- **The same reading** after `p`, up to ids, places, colours and looks of edges. The ids of one are
mapped to those of the other, and renamed exactly if `p` tells the names apart. -/
structure Recovery.Outcome.ReadsAs (o : Outcome) (p : Graph) (o' : Outcome) : Prop where
  warnings : o'.warnings = o.warnings
  enums : o'.graph.enums.map (fun e => (e.name, e.values)) =
    o.graph.enums.map fun e => (e.name, e.values)
  tables : o'.graph.tables.map (fun t => (t.name, t.columns)) =
    o.graph.tables.map fun t => (t.name, t.columns)
  edges : ∃ ρ, o'.graph.ids = o.graph.ids.map ρ ∧
    (o.graph.RenamedBy ρ o'.graph ↔ p.KnownApart o'.graph) ∧ (o'.graph.NoBars →
      o'.graph.edges.map (Edge.renamed id) = o.graph.edges.map (Edge.renamed ρ))

namespace Recovery

open Sql Draft

/-- **The ids of a script** stand for names. -/
theorem names_links (previous : Option Graph) (hp : (previous.getD {}).ids.Nodup)
    (statements : List Statement) : (ofStatements previous statements).links.1.Names := by
  obtain ⟨hc, -⟩ := complete_links previous statements
  have hkept := keepsIdentity_links previous statements []
  refine ⟨(hc.identified (tableIds_nodup previous hp)).ids, ?_, ?_,
    fun t ht e he => hkept.apart hp ht he⟩
  · refine List.Nodup.of_map Text.lower ?_
    rw [List.map_map]
    exact hc.named.names
  · refine List.Nodup.of_map Text.foldAscii ?_
    rw [List.map_map]
    exact hc.sound.enums.names

/-- A link of one reading and that of the other, which join what has the same names. -/
def Alike (d d' : Draft) (l l' : Link) : Prop :=
  ∃ n, d.SaysLink n l ∧ d'.SaysLink n l' ∧ l.Plain ∧ l'.Plain

theorem alike_links {d d' : Draft} {ns ls ls' : List Link} (h : List.Forall₂ d.SaysLink ns ls)
    (h' : List.Forall₂ d'.SaysLink ns ls') (plain : ∀ l ∈ ls, l.Plain)
    (plain' : ∀ l ∈ ls', l.Plain) : List.Forall₂ (Alike d d') ls ls' := by
  induction h generalizing ls' with
  | nil =>
    cases h'
    exact .nil
  | @cons n l ns ls hl _ ih =>
    cases h' with
    | cons hl' hls' =>
      refine .cons ⟨n, hl, hl', plain l (.head _), plain' _ (.head _)⟩ (ih hls' ?_ ?_)
      · exact fun k hk => plain k (.tail _ hk)
      · exact fun k hk => plain' k (.tail _ hk)

theorem Alike.key_eq_iff {d d' : Draft} (hd : d.Names) (hd' : d'.Names) {l l' k k' : Link}
    (h : Alike d d' l l') (hk : Alike d d' k k') : l.key = k.key ↔ l'.key = k'.key := by
  obtain ⟨n, hl, hl', plain, plain'⟩ := h
  obtain ⟨m, hm, hm', hplain, hplain'⟩ := hk
  rw [hd.key_eq_iff hl hm plain hplain, hd'.key_eq_iff hl' hm' plain' hplain']

/-- The edges of links that are alike are the same under the renaming. -/
theorem Alike.renamed_eq {d d' : Draft} {l l' : Link} (h : Alike d d' l l') (hd' : d'.Names)
    {ρ : String → String} (hρ : Renames ρ d d') (styles styles' : List (String × EdgeStyle)) :
    (l'.toEdge styles').renamed id = (l.toEdge styles).renamed ρ := by
  obtain ⟨n, hl, hl', -, -⟩ := h
  have hends : l'.source = ρ l.source ∧ l'.target = ρ l.target := by
    cases hl with
    | key kind hs htarget =>
      cases hl' with
      | key kind' hs' htarget' =>
        exact ⟨hd'.table_id hs' (hρ.tables _ _ hs), hd'.table_id htarget' (hρ.tables _ _ htarget)⟩
      | enumeration kind' => rw [kind] at kind'; cases kind'
    | enumeration kind name hs htarget =>
      cases hl' with
      | key kind' => rw [kind] at kind'; cases kind'
      | enumeration kind' name' hs' htarget' =>
        exact ⟨hd'.enum_id hs' (hρ.enums _ _ hs), hd'.table_id htarget' (hρ.tables _ _ htarget)⟩
  have hrest : { l' with source := "", target := "" } = { l with source := "", target := "" } := by
    cases hl <;> cases hl' <;> rfl
  simp only [Link.mk.injEq, true_and] at hrest
  obtain ⟨hcolumn, hcolumn', hcardinality, hkind⟩ := hrest
  unfold Edge.renamed Link.toEdge
  simp only [id_eq, hends, hcolumn, hcolumn', hcardinality, hkind]

/-- **Two readings of a text** without listed values. -/
theorem readsAs_of_unlisted {text : String} {p : Graph} (hp : p.ids.Nodup)
    (hu : Unlisted (Script.ofText text).statements) {o o' : Outcome}
    (h : recover text none = .ok o) (h' : recover text (some p) = .ok o') : o.ReadsAs p o' := by
  have hnames := names_links none List.nodup_nil (Script.ofText text).statements
  have hnames' := names_links (some p) hp (Script.ofText text).statements
  have hkept := keepsIdentity_links none (Script.ofText text).statements []
  have hkept' := keepsIdentity_links (some p) (Script.ofText text).statements
  obtain ⟨hs, hl⟩ := says_links (tableIds_nodup none List.nodup_nil) hu
  obtain ⟨hs', hl'⟩ := says_links (tableIds_nodup (some p) hp) hu
  have hplain := plain_of_mem_links none (Script.ofText text).statements
  have hplain' := plain_of_mem_links (some p) (Script.ofText text).statements
  obtain ⟨-, rfl⟩ := recover_eq_ok_iff.1 h
  obtain ⟨-, rfl⟩ := recover_eq_ok_iff.1 h'
  clear h h'
  generalize (ofStatements none (Script.ofText text).statements).links = r at *
  generalize (ofStatements (some p) (Script.ofText text).statements).links = r' at *
  have htables := hs.tables.trans hs'.tables.symm
  have henums := hs.enums.trans hs'.enums.symm
  obtain ⟨ρ, hids, hρ⟩ := exists_renames htables henums hkept.ids_nodup
  constructor
  · exact congrArg (List.map Warning.message) (hs'.warnings.trans hs.warnings.symm)
  · exact (map_eq_of_map_eq henums (fun e => (e.name, e.values)) fun _ => rfl).symm
  · exact (map_eq_of_map_eq htables (fun t => (t.name, t.columns)) fun _ => rfl).symm
  · have happart := (hkept' (reconcileEdges p.edges r'.2)).ids_nodup_iff hp hnames'.ids
    have hids : (Outcome.ofDraft (some p) r'.1 r'.2).graph.ids =
        (Outcome.ofDraft none r.1 r.2).graph.ids.map ρ := hids
    refine ⟨ρ, hids, (Graph.renamedBy_iff hids ?_).trans happart, fun hbars' => ?_⟩
    · exact hkept.ids_nodup
    have hbars : Graph.NoBars { tables := r.1.tables, enums := r.1.enums } := by
      refine hkept.noBars ?_ ?_ hbars'
      · exact htables
      · exact henums
    have halike := alike_links hl hl' (hplain hbars) (hplain' hbars')
    have hedges := forall₂_reconcileEdges [] p.edges
      (fun _ _ _ _ => Alike.key_eq_iff hnames hnames') halike
    refine Eq.symm ?_
    rw [← List.forall₂_eq_eq_eq, List.forall₂_map_left_iff, List.forall₂_map_right_iff]
    refine hedges.imp ?_
    rintro _ _ ⟨l, l', hll, rfl, rfl⟩
    exact (hll.renamed_eq hnames' hρ _ _).symm

/-- The graph that statements give, if they have tables. -/
def graphAfter (previous : Option Graph) (statements : List Statement) : Graph :=
  (Outcome.ofDraft previous (ofStatements previous statements).links.1
    (ofStatements previous statements).links.2).graph

/-- **The graph before** decides neither whether a text is read nor, if no column lists its values,
what is read but for ids and looks. -/
theorem recover_previous (text : String) {p : Graph} (hp : p.ids.Nodup) :
    (∃ e, recover text none = .error e ∧ recover text (some p) = .error e) ∨
      ∃ o o', recover text none = .ok o ∧ recover text (some p) = .ok o' ∧
        (Unlisted (Script.ofText text).statements → o.ReadsAs p o') := by
  have hsame : (ofStatements none (Script.ofText text).statements).links.1.tables ≠ [] ↔
      (ofStatements (some p) (Script.ofText text).statements).links.1.tables ≠ [] := by
    rw [links_tables_ne_nil, links_tables_ne_nil]
  by_cases hne : (ofStatements none (Script.ofText text).statements).links.1.tables = []
  · refine .inl ⟨failureOf text (Script.ofText text), ?_, ?_⟩
    · unfold recover
      dsimp only
      rw [if_pos (List.isEmpty_iff.2 hne)]
    · unfold recover
      dsimp only
      rw [if_pos (List.isEmpty_iff.2 (not_not.1 (mt hsame.2 (not_not.2 hne))))]
  · have h := recover_eq_ok_iff.2 ⟨hne, rfl⟩
    have h' := recover_eq_ok_iff.2 ⟨hsame.1 hne, rfl⟩
    exact .inr ⟨_, _, h, h', fun hu => readsAs_of_unlisted hp hu h h'⟩

set_option maxRecDepth 2000 in
/-- Orders after a graph in which another table has their id: ids differ, edges join the same. -/
theorem recover_previous_orders :
    ∃ o o', recover "CREATE TYPE state AS ENUM ('open');
CREATE TABLE users (id INT);
CREATE TABLE orders (state state, user INT REFERENCES users);" none = .ok o ∧
      recover "CREATE TYPE state AS ENUM ('open');
CREATE TABLE users (id INT);
CREATE TABLE orders (state state, user INT REFERENCES users);"
        (some { tables := [{ id := "table-orders", name := "USERS" }]
                enums := [{ id := "s", name := "State" }] }) = .ok o' ∧
      o.ReadsAs { tables := [{ id := "table-orders", name := "USERS" }]
                  enums := [{ id := "s", name := "State" }] } o' ∧
      o'.graph.NoBars ∧
      o.graph.edges.map (fun e => (e.source, e.target)) =
        [("table-orders", "table-users"), ("enum-state", "table-orders")] ∧
      o'.graph.edges.map (fun e => (e.source, e.target)) =
        [("table-orders-2", "table-orders"), ("s", "table-orders-2")] := by
  let text := "CREATE TYPE state AS ENUM ('open');
CREATE TABLE users (id INT);
CREATE TABLE orders (state state, user INT REFERENCES users);"
  let p : Graph :=
    { tables := [{ id := "table-orders", name := "USERS" }], enums := [{ id := "s", name := "State" }] }
  obtain ⟨statements, hread, hne, hne', hu, hbars, hedges, hedges'⟩ : ∃ statements,
      (Script.ofText text).statements = statements ∧
      (ofStatements none statements).links.1.tables ≠ [] ∧
      (ofStatements (some p) statements).links.1.tables ≠ [] ∧ Unlisted statements ∧
      (graphAfter (some p) statements).NoBars ∧
      (graphAfter none statements).edges.map (fun e => (e.source, e.target)) =
        [("table-orders", "table-users"), ("enum-state", "table-orders")] ∧
      (graphAfter (some p) statements).edges.map (fun e => (e.source, e.target)) =
        [("table-orders-2", "table-orders"), ("s", "table-orders-2")] :=
    ⟨_, Script.statements_ofList _, by decide +kernel⟩
  have h := recover_of_statements hread none hne
  have h' := recover_of_statements hread (some p) hne'
  have hp : p.ids.Nodup := by decide
  rcases recover_previous text hp with ⟨e, he, -⟩ | ⟨o, o', ho, ho', hsame⟩
  · rw [h] at he
    cases he
  · rw [h] at ho
    rw [h'] at ho'
    cases ho
    cases ho'
    exact ⟨_, _, h, h', hsame (hread ▸ hu), hbars, hedges, hedges'⟩

/-- **Two ends become one**: columns of two enumerations, whose names differ in the case of a letter
outside of ASCII, are joined with one enumeration after a graph that has one of that name. -/
theorem recover_previous_shared :
    ¬ ∀ (text : String) (p : Graph) (o o' : Outcome), p.ids.Nodup →
      recover text none = .ok o → recover text (some p) = .ok o' →
      Unlisted (Script.ofText text).statements → o'.graph.NoBars →
      ∃ ρ : String → String,
        (∀ e ∈ o.graph.edges, ∀ f ∈ o.graph.edges, ρ e.source = ρ f.source →
          e.source = f.source) ∧
        o'.graph.edges.map (Edge.renamed id) = o.graph.edges.map (Edge.renamed ρ) := by
  let text := "CREATE TYPE É AS ENUM ('a');
CREATE TYPE é AS ENUM ('b');
CREATE TABLE t (x É, y é);"
  let p : Graph := { tables := [], enums := [{ id := "enum-1", name := "é", values := ["b"] }] }
  obtain ⟨statements, hread, hne, hne', hu, hbars, hsources, hsources'⟩ : ∃ statements,
      (Script.ofText text).statements = statements ∧
      (ofStatements none statements).links.1.tables ≠ [] ∧
      (ofStatements (some p) statements).links.1.tables ≠ [] ∧ Unlisted statements ∧
      (graphAfter (some p) statements).NoBars ∧
      (graphAfter none statements).edges.map (·.source) = ["enum-é", "enum-é-2"] ∧
      (graphAfter (some p) statements).edges.map (·.source) = ["enum-1", "enum-1"] :=
    ⟨_, Script.statements_ofList _, by decide +kernel⟩
  intro hall
  obtain ⟨ρ, hρ, hedges⟩ := hall text p _ _ (by decide) (recover_of_statements hread none hne)
    (recover_of_statements hread (some p) hne') (hread ▸ hu) hbars
  -- both edges have the source `enum-1`, so their sources without `p` have the same image
  have hmapped := congrArg (List.map Edge.source) hedges
  rw [List.map_map, List.map_map] at hmapped
  have himage : ["enum-1", "enum-1"] = ["enum-é", "enum-é-2"].map ρ := by
    rw [← hsources, ← hsources', List.map_map]
    exact hmapped
  simp only [List.map_cons, List.map_nil, List.cons.injEq, and_true] at himage
  obtain ⟨e, he, hsource⟩ := List.mem_map.1 (hsources.symm ▸ List.Mem.head _ :
    "enum-é" ∈ (graphAfter none statements).edges.map (·.source))
  obtain ⟨f, hf, hsource'⟩ := List.mem_map.1 (hsources.symm ▸ .tail _ (.head _) :
    "enum-é-2" ∈ (graphAfter none statements).edges.map (·.source))
  have hsame := hρ e he f hf (by rw [hsource, hsource', ← himage.1, ← himage.2])
  rw [hsource, hsource'] at hsame
  exact absurd hsame (by decide)

end Recovery

end DdlGraph
