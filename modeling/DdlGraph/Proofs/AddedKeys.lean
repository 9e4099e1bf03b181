import DdlGraph.Proofs.FirstKeys
import DdlGraph.Proofs.UndisturbedGraph

/-!
# Keys that are added to tables

Where keys do not stand inside of `CREATE TABLE`, they follow the tables in a section of statements
that add them. The section states each key of the graph once, in the order of the edges and then of
the columns, and no two of its constraints have the same name: a name is the first that no statement
before has taken.

* `mem_canonical_allKeys`: the keys of edges between two tables, and those of references whose
  target is not in the graph;
* `firstFree_constraintNames`: the names of the constraints;
* `closed_addedKeysText`: what the text of the section says, statement by statement;
* `adds_script`: the section of a graph.
-/

namespace DdlGraph.Ddl

open Sql

/-! ## Keys to state -/

/-- An edge states a key just if both of its tables are there. -/
theorem exists_ofEdge?_iff {g : Graph} {e : Edge} {canonical : String} :
    (∃ k, KeySpec.ofEdge? g e = some k ∧ k.canonical = canonical) ↔
      ∃ source target, g.table? e.source = some source ∧ g.table? e.target = some target ∧
        canonical =
          Text.lower (edgeKey source.name e.sourceColumn target.name e.targetColumn) := by
  unfold KeySpec.ofEdge?
  cases g.table? e.source with
  | none => simp
  | some source =>
    cases g.table? e.target with
    | none => simp
    | some target =>
      constructor
      · rintro ⟨k, hk, rfl⟩
        cases hk
        exact ⟨source, target, rfl, rfl, rfl⟩
      · rintro ⟨source', target', hs, ht, rfl⟩
        cases hs
        cases ht
        exact ⟨_, rfl, rfl⟩

/-- A column states a key just if its reference has no target in the graph. -/
theorem exists_ofColumn?_iff {t : Table} {c : Column} {canonical : String} :
    (∃ k, KeySpec.ofColumn? t c = some k ∧ k.canonical = canonical) ↔
      ∃ ref, c.foreignKey = some ref ∧ ref.resolved = false ∧
        canonical = Text.lower (edgeKey t.name c.title ref.table ref.column) := by
  unfold KeySpec.ofColumn?
  constructor
  · rintro ⟨k, hk, rfl⟩
    obtain ⟨ref, href, rfl⟩ := Option.map_eq_some_iff.1 hk
    obtain ⟨hc, hresolved⟩ := Option.filter_eq_some_iff.1 href
    exact ⟨ref, hc, by simpa using hresolved, rfl⟩
  · rintro ⟨ref, hc, hresolved, rfl⟩
    have href : c.foreignKey.filter (fun k => !k.resolved) = some ref :=
      Option.filter_eq_some_iff.2 ⟨hc, by simpa using hresolved⟩
    exact ⟨_, congrArg _ href, rfl⟩

/-- The canonical keys that the edges of a graph ask for. -/
def StatedByEdge (g : Graph) (canonical : String) : Prop :=
  ∃ e ∈ g.edges, e.enumLink = false ∧ ∃ source target, g.table? e.source = some source ∧
    g.table? e.target = some target ∧
      canonical = Text.lower (edgeKey source.name e.sourceColumn target.name e.targetColumn)

/-- The canonical keys that the columns of a graph ask for. -/
def StatedByColumn (g : Graph) (canonical : String) : Prop :=
  ∃ t ∈ g.tables, ∃ c ∈ t.columns, ∃ ref, c.foreignKey = some ref ∧ ref.resolved = false ∧
    canonical = Text.lower (edgeKey t.name c.title ref.table ref.column)

/-- **The keys of a graph** are those of edges between two tables, but for the edges of
enumerations, and those of references whose target is not in the graph. -/
theorem mem_canonical_allKeys {g : Graph} {canonical : String} :
    canonical ∈ (allKeys g).map KeySpec.canonical ↔
      StatedByEdge g canonical ∨ StatedByColumn g canonical := by
  have hedge : canonical ∈ ((g.foreignKeys.filterMap (KeySpec.ofEdge? g)).map KeySpec.canonical) ↔
      StatedByEdge g canonical := by
    unfold StatedByEdge Graph.foreignKeys
    simp only [List.mem_map, List.mem_filterMap, List.mem_filter, Bool.not_eq_true',
      ← exists_ofEdge?_iff]
    constructor
    · rintro ⟨k, ⟨e, ⟨he, hkind⟩, hk⟩, hcanonical⟩
      exact ⟨e, he, hkind, k, hk, hcanonical⟩
    · rintro ⟨e, he, hkind, k, hk, hcanonical⟩
      exact ⟨k, ⟨e, ⟨he, hkind⟩, hk⟩, hcanonical⟩
  have hcolumn : canonical ∈ ((g.tables.flatMap fun t =>
      t.columns.filterMap (KeySpec.ofColumn? t)).map KeySpec.canonical) ↔
        StatedByColumn g canonical := by
    unfold StatedByColumn
    simp only [List.mem_map, List.mem_flatMap, List.mem_filterMap, ← exists_ofColumn?_iff]
    constructor
    · rintro ⟨k, ⟨t, ht, c, hc, hk⟩, hcanonical⟩
      exact ⟨t, ht, c, hc, k, hk, hcanonical⟩
    · rintro ⟨t, ht, c, hc, k, hk, hcanonical⟩
      exact ⟨k, ⟨t, ht, c, hc, hk⟩, hcanonical⟩
  unfold allKeys
  rw [List.map_append, List.mem_append, hedge, hcolumn]

/-! ## Names of constraints -/

/-- The name of a constraint, if it is free. -/
def constraintBase (k : KeySpec) : String :=
  "fk_" ++ slug k.sourceTable ++ "_" ++ slug k.sourceColumn

/-- **The name of a constraint** is the first that is neither in use nor that of a constraint before
it. -/
theorem firstFree_constraintNames {used : List String} {keys : List KeySpec}
    {before after : List (String × KeySpec)} {name : String} {k : KeySpec}
    (h : constraintNames used keys = before ++ (name, k) :: after) :
    FirstFree (fun other => other ∈ before.map (·.1) ∨ other ∈ used) (constraintBase k) "_"
      name := by
  induction keys generalizing used before with
  | nil =>
    rw [constraintNames] at h
    exact absurd h.symm (List.append_ne_nil_of_right_ne_nil _ (List.cons_ne_nil _ _))
  | cons key keys ih =>
    have htaken : ∀ other, used.contains other = true ↔ id other ∈ used := fun other => by simp
    have hfirst : FirstFree (· ∈ used) (constraintBase key) "_"
        (freeName used.contains used.length (constraintBase key) "_") :=
      firstFree_freeName (Nat.le_refl _) htaken fun m n => numbered_inj (constraintBase key) "_"
    rw [constraintNames] at h
    cases before with
    | nil =>
      obtain ⟨rfl, rfl⟩ := Prod.mk.inj (List.cons.inj h).1
      exact hfirst.congr fun other => by simp
    | cons nk before =>
      obtain ⟨rfl, hrest⟩ := List.cons.inj h
      refine (ih hrest).congr fun other => ?_
      rw [List.map_cons, List.mem_cons, List.mem_cons, or_assoc, or_left_comm]

/-! ## The section -/

/-- The statements that add keys under these names, behind a line that says so. -/
def addedKeysText (s : Settings) (added : List (String × KeySpec)) : String :=
  if added.isEmpty then ""
  else keySectionMark ++ "\n" ++ Text.join "" (added.map fun nk => addKeyText s nk.1 nk.2)

/-- **The text of the section** is one statement for each key and its name, in order, which alters
the table of the key (`addKeyTokens`), and says nothing else. -/
theorem closed_addedKeysText (s : Settings) {added : List (String × KeySpec)}
    (h : ∀ nk ∈ added, nk.2.HasActions) (b : Bool) :
    Closed b (addedKeysText s added).toList (added.flatMap fun nk => addKeyTokens s nk.1 nk.2) := by
  have hstatements : Closed b (Text.join "" (added.map fun nk => addKeyText s nk.1 nk.2)).toList
      (added.flatMap fun nk => addKeyTokens s nk.1 nk.2) := by
    rw [toList_join_empty]
    induction added with
    | nil => exact .nil
    | cons nk added ih =>
      have hfirst := closed_addKeyText s nk.1 (h nk (.head _)) b
      exact hfirst.append (ih fun nk' hnk => h nk' (.tail _ hnk))
  have hmark : Closed b (keySectionMark ++ "\n").toList [] := closed_fixed (by decide) b
  unfold addedKeysText
  cases added with
  | nil => exact .nil
  | cons nk added =>
    rw [if_neg (by simp), String.toList_append]
    exact hmark.append hstatements

/-- **The keys of a graph under names of their own.** -/
structure Adds (g : Graph) (added : List (String × KeySpec)) : Prop where
  /-- Of the keys of the edges and then of the columns, the first of each canonical key. -/
  firsts : FirstsOf KeySpec.canonical (allKeys g) (added.map (·.2))
  /-- All keys that edges and columns ask for, and no others. -/
  complete : ∀ canonical, canonical ∈ added.map (·.2.canonical) ↔
    StatedByEdge g canonical ∨ StatedByColumn g canonical
  distinct : (added.map (·.1)).Nodup
  /-- Each name is the first that no statement before has. -/
  names : ∀ before name k after, added = before ++ (name, k) :: after →
    FirstFree (· ∈ before.map (·.1)) (constraintBase k) "_" name

theorem adds_constraintNames (g : Graph) : Adds g (constraintNames [] (keysOf g)) := by
  have hfirsts : FirstsOf KeySpec.canonical (allKeys g)
      ((constraintNames [] (keysOf g)).map (·.2)) := by
    rw [map_constraintNames]
    exact firstsOf_firstOfEach KeySpec.canonical (allKeys g)
  refine ⟨hfirsts, fun canonical => ?_, (Repair.nodup_constraintNames [] (keysOf g)).1, ?_⟩
  · have hkeys := hfirsts.keys
    rw [List.map_map] at hkeys
    rw [← mem_canonical_allKeys, ← List.mem_eraseDups (l := (allKeys g).map KeySpec.canonical),
      ← hkeys]
    rfl
  · intro before name k after h
    exact (firstFree_constraintNames h).congr fun other => by simp

/-- **The section of a graph** states every key once, under a name of its own, and nothing of the
keys stands in the tables before it. -/
theorem adds_script {s : Settings} (hd : s.dialect ≠ .sqlite) (hi : s.inlineConstraints = false)
    (time : String) (g : Graph) :
    Adds g (constraintNames [] (keysOf g)) ∧
      script s time g = header s time ++ enumSection s g ++
        Text.join "" (g.tables.map (tableText s g [])) ++
          addedKeysText s (constraintNames [] (keysOf g)) := by
  have hinline : inlinesKeys s = false := by
    unfold inlinesKeys
    rw [hi]
    cases hdialect : s.dialect with
    | sqlite => exact absurd hdialect hd
    | postgresql => rfl
    | mysql => rfl
  refine ⟨adds_constraintNames g, ?_⟩
  have htables : ∀ t, tableText s g (keysOf g) t = tableText s g [] t := by
    intro t
    unfold tableText
    rw [hinline]
    rfl
  have hsection : keySection s (keysOf g) = addedKeysText s (constraintNames [] (keysOf g)) := by
    unfold keySection addedKeysText
    rw [hinline]
    cases keysOf g <;> rfl
  unfold script
  dsimp only
  rw [hsection, List.map_congr_left fun t _ => htables t]

/-- Two tables with one slug, an edge that stands twice, the edge of an enumeration, and a reference
without a target. -/
theorem adds_script_slugs :
    let g : Graph :=
      { tables :=
          [{ id := "t1", name := "a b", columns := [{ title := "c", dataType := "int" }] },
           { id := "t2", name := "a_b"
             columns := [{ title := "c", dataType := "int",
                           foreignKey := some ⟨"gone", "id", none, none, false⟩ }] }]
        edges :=
          [{ id := "e1", source := "t1", sourceHandle := "source-c", target := "t2",
             targetHandle := "target-c", cardinality := .manyToMany },
           { id := "e2", source := "t1", sourceHandle := "c", target := "t2",
             targetHandle := "target-C", cardinality := .oneToOne },
           { id := "e3", source := "t2", sourceHandle := "source-c", target := "t1",
             targetHandle := "target-c", cardinality := .oneToMany, enumLink := true }] }
    let s : Settings := {}
    s.dialect ≠ .sqlite ∧ s.inlineConstraints = false ∧
      (constraintNames [] (keysOf g)).map (fun nk => (nk.1, nk.2.canonical)) =
        [("fk_a_b_c", "a b|c|a_b|c"), ("fk_a_b_c_2", "a_b|c|gone|id")] ∧
      Adds g (constraintNames [] (keysOf g)) ∧
      script s "now" g = header s "now" ++ enumSection s g ++
        Text.join "" (g.tables.map (tableText s g [])) ++
          addedKeysText s (constraintNames [] (keysOf g)) := by
  intro g s
  have hd : s.dialect ≠ .sqlite := by decide
  exact ⟨hd, rfl, by decide +kernel, adds_script hd rfl "now" g⟩

end DdlGraph.Ddl
