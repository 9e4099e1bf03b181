import DdlGraph.Proofs.FirstKeys
import DdlGraph.Proofs.JoinedColumns
import DdlGraph.Proofs.Reread

/-!
# Edges for links, and no others

What `reconcileEdges` makes is said here without its list of seen keys and its list of styles
(`Reconciles`): of the links with one key the first gives an edge (`Link.Gives`), which takes over
the style of the last edge before with this key, or else of the last one with the key of the other
direction. The rule leaves no choice, so it can be put in the place of the function.

* `reconcileAfter_eq`: the links that give edges are the first of each key;
* `lookup_stylesByKey`: the style of a key is that of its last edge;
* `reconciles_iff`: the rule gives just the edges that are made;
* `reconciles_reconcileEdges`: nothing is lost, a second run changes nothing, and different ends
  stay apart.
-/

namespace DdlGraph

/-! ## The rule -/

/-- The last edge of a key. -/
def lastOfKey? (edges : List Edge) (key : String) : Option Edge :=
  (edges.filter fun e => e.key == key).getLast?

/-- **The style of an edge**: that of the last edge before with the key of the link, or else of the
last one in the other direction, or else the one for new edges of its kind. -/
def Link.styleAfter (previous : List Edge) (l : Link) : EdgeStyle :=
  match lastOfKey? previous l.key, lastOfKey? previous l.reverseKey with
  | some e, _ => e.style
  | none, some e => e.style
  | none, none => if l.enumLink then .enumLink else {}

/-- **A link gives an edge**: the same ends by their handles, the same kind, and an id and a style
of the key. -/
structure Link.Gives (previous : List Edge) (l : Link) (e : Edge) : Prop where
  id : e.id = edgeId l.key
  source : e.source = l.source
  sourceHandle : e.sourceHandle = "source-" ++ l.sourceColumn
  target : e.target = l.target
  targetHandle : e.targetHandle = "target-" ++ l.targetColumn
  cardinality : e.cardinality = l.cardinality
  enumLink : e.enumLink = l.enumLink
  style : e.style = l.styleAfter previous

/-- **Edges for links**: the first link of each key gives one. -/
def Reconciles (previous : List Edge) (links : List Link) (edges : List Edge) : Prop :=
  ∃ firsts, FirstsOf Link.key links firsts ∧ List.Forall₂ (Link.Gives previous) firsts edges

/-! ## The edges that are made -/

/-- **The first link of each key makes an edge.** -/
theorem reconcileAfter_eq (styles : List (String × EdgeStyle)) (seen : List String)
    (links : List Link) : reconcileAfter styles seen links =
      ((firstOfEach seen (links.map fun l => (l.key, l))).map (·.2)).map (Link.toEdge styles) := by
  induction links generalizing seen with
  | nil => rfl
  | cons l rest ih =>
    rw [List.map_cons, reconcileAfter, firstOfEach]
    split
    · exact ih seen
    · rw [ih (l.key :: seen), List.map_cons, List.map_cons]

/-- **The style of a key** is that of its last edge. -/
theorem lookup_stylesByKey (edges : List Edge) (key : String) :
    (stylesByKey edges).lookup key = (lastOfKey? edges key).map (·.style) := by
  have hlast : edges.reverse.find? (fun e => e.key == key) = lastOfKey? edges key := by
    unfold lastOfKey?
    rw [← List.head?_filter, List.filter_reverse, List.head?_reverse]
  unfold stylesByKey
  rw [lookup_map_eq_find?, hlast]

theorem style_toEdge (previous : List Edge) (l : Link) :
    (l.toEdge (stylesByKey previous)).style = l.styleAfter previous := by
  unfold Link.toEdge Link.styleAfter
  rw [lookup_stylesByKey, lookup_stylesByKey]
  cases lastOfKey? previous l.key with
  | some e => rfl
  | none => cases lastOfKey? previous l.reverseKey <;> rfl

theorem gives_toEdge (previous : List Edge) (l : Link) :
    l.Gives previous (l.toEdge (stylesByKey previous)) :=
  ⟨rfl, rfl, rfl, rfl, rfl, rfl, rfl, style_toEdge previous l⟩

/-- A link gives one edge only. -/
theorem Link.Gives.unique {previous : List Edge} {l : Link} {e e' : Edge}
    (h : l.Gives previous e) (h' : l.Gives previous e') : e = e' := by
  obtain ⟨hid, hsource, hhandle, htarget, hhandle', hcardinality, hkind, hstyle⟩ := h
  cases e
  cases e'
  rw [Edge.mk.injEq]
  exact ⟨hid.trans h'.id.symm, hsource.trans h'.source.symm, hhandle.trans h'.sourceHandle.symm,
    htarget.trans h'.target.symm, hhandle'.trans h'.targetHandle.symm,
    hcardinality.trans h'.cardinality.symm, hkind.trans h'.enumLink.symm,
    hstyle.trans h'.style.symm⟩

/-- **The rule gives just the edges that are made.** -/
theorem reconciles_iff {previous : List Edge} {links : List Link} {edges : List Edge} :
    Reconciles previous links edges ↔ edges = reconcileEdges previous links := by
  have hfirsts := firstsOf_firstOfEach Link.key links
  have hmade := reconcileAfter_eq (stylesByKey previous) [] links
  constructor
  · rintro ⟨firsts, hf, hgives⟩
    unfold reconcileEdges
    rw [hmade, ← hf.unique hfirsts, ← List.forall₂_eq_eq_eq, List.forall₂_map_right_iff]
    exact hgives.flip.imp fun e l h => h.unique (gives_toEdge previous l)
  · rintro rfl
    refine ⟨_, hfirsts, ?_⟩
    unfold reconcileEdges
    rw [hmade, List.forall₂_map_right_iff, List.forall₂_same]
    exact fun l _ => gives_toEdge previous l

/-- One edge for each key, where the key first occurs. -/
theorem keys_reconcileEdges (previous : List Edge) (links : List Link) :
    (reconcileEdges previous links).map Edge.key = (links.map Link.key).eraseDups := by
  unfold reconcileEdges
  rw [reconcileAfter_eq, List.map_map, ← (firstsOf_firstOfEach Link.key links).keys]
  exact List.map_congr_left fun l _ => Link.key_toEdge _ l

/-- **Edges for links lose and invent nothing.** They are the edges of the rule, one for each key
and in the order of the keys. From the edges that were made the same links make the same edges. And
links have the same key just if they have the same ends, where no id and no title has a bar. -/
theorem reconciles_reconcileEdges (previous : List Edge) (links : List Link) :
    (∀ edges, Reconciles previous links edges ↔ edges = reconcileEdges previous links) ∧
      (reconcileEdges previous links).map Edge.key = (links.map Link.key).eraseDups ∧
      reconcileEdges (reconcileEdges previous links) links = reconcileEdges previous links ∧
      ∀ l ∈ links, ∀ l' ∈ links, l.Plain → l'.Plain → (l.key = l'.key ↔ l.ends = l'.ends) :=
  ⟨fun _ => reconciles_iff, keys_reconcileEdges previous links,
    Recovery.reconcileEdges_again previous links,
    fun _ _ _ _ h h' => ⟨Link.ends_of_key h h', Link.key_of_ends⟩⟩

/-- Two edges before with one key, an edge in the other direction, and a link that stands twice. -/
theorem reconciles_reconcileEdges_orders :
    let previous : List Edge :=
      [{ id := "e1", source := "orders", sourceHandle := "user_id", target := "users",
         targetHandle := "id", cardinality := .manyToOne, style := { label := some "first" } },
       { id := "e2", source := "orders", sourceHandle := "source-user_id", target := "users",
         targetHandle := "target-id", cardinality := .manyToOne,
         style := { label := some "last" } },
       { id := "e3", source := "items", sourceHandle := "target-id", target := "orders",
         targetHandle := "item", cardinality := .oneToMany, style := { animated := true } }]
    let orders : Link := ⟨"orders", "user_id", "users", "id", .manyToOne, false⟩
    let again : Link := ⟨"orders", "user_id", "users", "id", .oneToOne, false⟩
    let items : Link := ⟨"orders", "item", "items", "id", .manyToOne, false⟩
    let state : Link := ⟨"enum-state", "state", "orders", "state", .oneToMany, true⟩
    let edges := reconcileEdges previous [orders, again, items, state]
    orders.Plain ∧ again.Plain ∧ items.Plain ∧ orders.key = again.key ∧ orders.key ≠ items.key ∧
      edges.map Edge.key = ["orders|source-user_id|users|target-id",
        "orders|source-item|items|target-id", "enum-state|source-state|orders|target-state"] ∧
      edges.map (·.style) = [{ label := some "last" }, { animated := true }, .enumLink] ∧
      reconcileEdges edges [orders, again, items, state] = edges := by
  intro previous orders again items state edges
  have horders : orders.Plain := ⟨by decide, by decide, by decide⟩
  have hagain : again.Plain := ⟨by decide, by decide, by decide⟩
  have hitems : items.Plain := ⟨by decide, by decide, by decide⟩
  obtain ⟨-, hkeys, hstable, hends⟩ :=
    reconciles_reconcileEdges previous [orders, again, items, state]
  have hsame := (hends orders (.head _) again (.tail _ (.head _)) horders hagain).2 rfl
  have hother := mt (hends orders (.head _) items (.tail _ (.tail _ (.head _))) horders hitems).1
    (by decide)
  exact ⟨horders, hagain, hitems, hsame, hother, hkeys.trans (by decide +kernel),
    by decide +kernel, hstable⟩

end DdlGraph
