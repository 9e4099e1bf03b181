import DdlGraph.Proofs.PriorInfluence

/-!
# Edges by names

An edge of a graph has the ids of its ends; with the names of tables and enumerations in their place
it says what it joins in every graph of the same schema. The edges of a script, by names, are just
the links of its sheet, if no two of these join the same.

* `Edge.named`: an edge by the names of its ends;
* `reconcileAfter_of_nodup`: links of different keys all give an edge;
* `named_reconcileEdges`: the edges of links, by names.
-/

namespace DdlGraph

/-- The name of the table or the enumeration with that id. -/
def Graph.nameOf (g : Graph) (id : String) : String :=
  (((g.table? id).map (·.name)).or ((g.enum? id).map (·.name))).getD id

/-- **An edge by names**: without its id, and with names in place of the ids of its ends. -/
def Edge.named (g : Graph) (e : Edge) : Edge :=
  { e with id := "", source := g.nameOf e.source, target := g.nameOf e.target }

/-- The edge that a link by names gives without edges before, by names. -/
def Link.namedEdge (n : Link) : Edge :=
  { n.toEdge [] with id := "" }

/-- Links of different keys all give an edge. -/
theorem reconcileAfter_of_nodup {styles : List (String × EdgeStyle)} {links : List Link}
    (hn : (links.map Link.key).Nodup) {seen : List String} (hseen : ∀ l ∈ links, l.key ∉ seen) :
    reconcileAfter styles seen links = links.map (Link.toEdge styles) := by
  induction links generalizing seen with
  | nil => rfl
  | cons l links ih =>
    obtain ⟨hnot, hrest⟩ := List.nodup_cons.1 hn
    have hl : ¬ seen.contains l.key = true := mt List.contains_iff_mem.1 (hseen l (.head _))
    unfold reconcileAfter
    rw [if_neg hl, List.map_cons, ih hrest]
    intro k hk hm
    rcases List.mem_cons.1 hm with he | hm
    · exact hnot (he ▸ List.mem_map_of_mem hk)
    · exact hseen k (.tail _ hk) hm

theorem exists_mem_of_forall₂ {α β : Type} {R : α → β → Prop} {as : List α} {bs : List β}
    (h : List.Forall₂ R as bs) {b : β} (hb : b ∈ bs) : ∃ a ∈ as, R a b := by
  induction h with
  | nil => cases hb
  | @cons a b' as bs hab _ ih =>
    rcases List.mem_cons.1 hb with rfl | hb
    · exact ⟨a, .head _, hab⟩
    · obtain ⟨x, hx, hr⟩ := ih hb
      exact ⟨x, .tail _ hx, hr⟩

namespace Recovery.Draft

section
variable {d : Draft} (hd : d.Names) {ns ls : List Link} (h : List.Forall₂ d.SaysLink ns ls)
include hd h

/-- Links have different keys, if no two of them join the same by their names. -/
theorem nodup_keys (plain : ∀ l ∈ ls, l.Plain)
    (hn : (ns.map fun n => (n.ends, n.enumLink)).Nodup) : (ls.map Link.key).Nodup := by
  induction h with
  | nil => exact List.nodup_nil
  | @cons n l ns ls hl hrest ih =>
    obtain ⟨hnot, hns⟩ := List.nodup_cons.1 hn
    refine List.nodup_cons.2 ⟨fun hm => ?_, ih (fun k hk => plain k (.tail _ hk)) hns⟩
    obtain ⟨k, hk, hkey⟩ := List.mem_map.1 hm
    obtain ⟨m, hm, hmk⟩ := exists_mem_of_forall₂ hrest hk
    have hsame := (hd.key_eq_iff hmk hl (plain k (.tail _ hk)) (plain l (.head _))).1 hkey
    refine hnot (List.mem_map.2 ⟨m, hm, ?_⟩)
    rw [hsame.1, hsame.2]

variable (hids : (d.enums.map (·.id)).Nodup)
include hids

/-- **Edges of links, by names**, if no two links join the same. -/
theorem named_reconcileEdges (plain : ∀ l ∈ ls, l.Plain)
    (hn : (ns.map fun n => (n.ends, n.enumLink)).Nodup) (edges : List Edge) :
    (reconcileEdges [] ls).map (Edge.named { tables := d.tables, enums := d.enums, edges }) =
      ns.map Link.namedEdge := by
  have htable : ∀ {name id : String}, d.HasTable name id →
      Graph.nameOf { tables := d.tables, enums := d.enums, edges } id = name := by
    rintro name id ⟨t, ht, rfl, rfl⟩
    unfold Graph.nameOf Graph.table?
    rw [tableById?_of_nodup hd.ids ht]
    rfl
  have henum : ∀ {name id : String}, d.HasEnum name id →
      Graph.nameOf { tables := d.tables, enums := d.enums, edges } id = name := by
    rintro name id ⟨e, he, rfl, rfl⟩
    have hnone : tableById? d.tables e.id = none :=
      List.find?_eq_none.2 fun t ht hid => hd.apart t ht e he (eq_of_beq hid)
    have hsome : d.enums.find? (·.id == e.id) = some e :=
      find?_of_nodup hids he (beq_self_eq_true _) fun _ _ h => eq_of_beq h
    unfold Graph.nameOf Graph.table? Graph.enum?
    rw [hnone, hsome]
    rfl
  have hall : reconcileEdges [] ls = ls.map (Link.toEdge []) :=
    reconcileAfter_of_nodup (nodup_keys hd h plain hn) fun _ _ => List.not_mem_nil
  rw [hall, List.map_map, ← List.forall₂_eq_eq_eq, List.forall₂_map_left_iff,
    List.forall₂_map_right_iff]
  refine h.flip.imp fun l n hl => ?_
  unfold Edge.named Link.namedEdge Link.toEdge
  cases hl with
  | key kind hs ht =>
    simp only [Function.comp_apply, htable hs, htable ht]
    rfl
  | enumeration kind name hs ht =>
    simp only [Function.comp_apply, henum hs, htable ht]
    rfl

end

end Recovery.Draft

end DdlGraph
