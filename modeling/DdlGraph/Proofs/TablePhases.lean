import DdlGraph.Ddl.KeySpec
import DdlGraph.Proofs.DraftPhases
import Mathlib.Data.List.Nodup

/-!
# What the tables of a draft keep

The phase of tables appends one table for each first definition; the phases after it keep the
outlines of all tables.

* `Draft.Named`, `Draft.Identified`: names and ids of tables are all different;
* `Draft.AddStep`, `addTable_step`: what the definition of a table does to a draft;
* `Draft.LateStep`: what indexes and foreign keys do to a draft;
* `Draft.Complete`, `complete_ofStatements`: the draft of a script.
-/

namespace DdlGraph

/-! ## The graph before -/

theorem mem_of_lookup {α : Type} {entries : List (String × α)} {key : String} {a : α}
    (h : entries.lookup key = some a) : (key, a) ∈ entries := by
  obtain ⟨l₁, l₂, rfl, -⟩ := List.lookup_eq_some_iff.1 h
  exact List.mem_append_right _ (.head _)

/-- A table of the graph before has the name that it is looked up by, case left aside. -/
theorem Prior.mem_of_table? {previous : Option Graph} {name : String} {t : Table}
    (h : (Prior.ofGraph? previous).table? name = some t) :
    ∃ g ∈ previous, t ∈ g.tables ∧ Text.lower t.name = Text.lower name := by
  cases previous with
  | none => cases h
  | some g =>
    have hm := Ddl.mem_of_mem_firstOfEach (mem_of_lookup h)
    obtain ⟨p, hp, he⟩ := List.mem_map.1 hm
    rw [Prod.mk.injEq] at he
    obtain ⟨hname, rfl⟩ := he
    exact ⟨g, rfl, hp, hname⟩

/-- What makes a table the same one on the canvas. -/
def Table.placement (t : Table) : Placement :=
  ⟨t.id, t.position, t.color⟩

/-- **Place of a table**: that of a table before, or one with a new id. -/
theorem placeTable_cases (prior : Prior) (pool : IdPool) (name : String) (index : Nat) :
    pool.taken ⊆ (placeTable prior pool name index).2.taken ∧
      ((∃ t, prior.table? name = some t ∧ (placeTable prior pool name index).1.id = t.id) ∨
        (placeTable prior pool name index).1.id ∉ pool.taken ∧
          (placeTable prior pool name index).1.id ∈
            (placeTable prior pool name index).2.taken) := by
  unfold placeTable
  split
  · rename_i t ht
    exact ⟨List.Subset.refl _, .inl ⟨t, ht, rfl⟩⟩
  · refine ⟨List.subset_cons_self _ _, .inr ⟨pool.freeId_fresh "table" name, ?_⟩⟩
    exact pool.mem_taken_allocate "table" name

namespace Recovery.Draft

open Sql

/-! ## Ids and names -/

/-- **Names of tables** are all different, and the draft has the id for each. -/
structure Named (d : Draft) : Prop where
  tableIds : d.tableIds = d.tables.map fun t => (Text.lower t.name, t.id)
  names : (d.tables.map fun t => Text.lower t.name).Nodup

/-- **Ids of tables** are all different and taken. An id of the graph before belongs to the table
of the same name. -/
structure Identified (previous : Option Graph) (d : Draft) : Prop where
  ids : (d.tables.map (·.id)).Nodup
  taken : ∀ t ∈ d.tables, t.id ∈ d.pool.taken
  before : ∀ g ∈ previous, ∀ p ∈ g.tables, p.id ∈ d.pool.taken
  kept : ∀ g ∈ previous, ∀ p ∈ g.tables, ∀ t ∈ d.tables, t.id = p.id →
    Text.lower t.name = Text.lower p.name

theorem Identified.start (previous : Option Graph) :
    Identified previous { pool := IdPool.ofGraph? previous } where
  ids := List.nodup_nil
  taken _ h := nomatch h
  before g hg p hp := by
    obtain rfl := Option.mem_def.1 hg
    exact List.mem_append_left _ (List.mem_map_of_mem hp)
  kept _ _ _ _ _ h := nomatch h

theorem map_outline_congr {β : Type} (f : Table → β) (hf : ∀ t, f t.outline = f t)
    {tables tables' : List Table} (h : tables'.map Table.outline = tables.map Table.outline) :
    tables'.map f = tables.map f := by
  have hmap := congrArg (List.map f) h
  simpa only [List.map_map, Function.comp_def, hf] using hmap

theorem Named.mono {d d' : Draft} (h : Named d)
    (ht : d'.tables.map Table.outline = d.tables.map Table.outline)
    (hi : d'.tableIds = d.tableIds) : Named d' := by
  constructor
  · rw [hi, h.tableIds]
    exact (map_outline_congr (fun t => (Text.lower t.name, t.id)) (fun _ => rfl) ht).symm
  · rw [map_outline_congr (fun t => Text.lower t.name) (fun _ => rfl) ht]
    exact h.names

theorem Identified.mono {previous : Option Graph} {d d' : Draft} (h : Identified previous d)
    (ht : d'.tables.map Table.outline = d.tables.map Table.outline)
    (hp : d.pool.taken ⊆ d'.pool.taken) : Identified previous d' := by
  have hmem : ∀ t' ∈ d'.tables, ∃ t ∈ d.tables, t'.id = t.id ∧ t'.name = t.name := by
    intro t' ht'
    obtain ⟨t, htm, ho⟩ := exists_mem_of_map_eq ht.symm ht'
    have hid : t.outline.id = t'.outline.id := congrArg Table.id ho
    have hname : t.outline.name = t'.outline.name := congrArg Table.name ho
    exact ⟨t, htm, hid.symm, hname.symm⟩
  constructor
  · rw [map_outline_congr (·.id) (fun _ => rfl) ht]
    exact h.ids
  · intro t' ht'
    obtain ⟨t, htm, hid, -⟩ := hmem t' ht'
    exact hid ▸ hp (h.taken t htm)
  · exact fun g hg p hm => hp (h.before g hg p hm)
  · intro g hg p hm t' ht' he
    obtain ⟨t, htm, hid, hname⟩ := hmem t' ht'
    rw [hname]
    exact h.kept g hg p hm t htm (hid ▸ he)

theorem Named.tableId?_eq_none {d : Draft} (h : Named d) {name : String} :
    d.tableId? name = none ↔ Text.lower name ∉ d.tables.map fun t => Text.lower t.name := by
  unfold tableId?
  rw [h.tableIds, List.lookup_eq_none_iff]
  simp only [List.mem_map, bne_iff_ne, ne_eq]
  constructor
  · rintro h ⟨t, ht, he⟩
    exact h _ ⟨t, ht, rfl⟩ he.symm
  · rintro h _ ⟨t, ht, rfl⟩ he
    exact h ⟨t, ht, he.symm⟩

/-! ## One table -/

/-- **A step that appends the table of a definition**, with a new id or that of the graph
before. -/
structure AddStep (prior : Prior) (definition : TableDef) (d d' : Draft) (t : Table) : Prop where
  tables : d'.tables = d.tables ++ [t]
  tableIds : d'.tableIds = d.tableIds ++ [(Text.lower t.name, t.id)]
  place : t.placement = (placeTable prior d.pool t.name d.tables.length).1
  pool : (placeTable prior d.pool t.name d.tables.length).2.taken ⊆ d'.pool.taken
  realizes : RealizesTable definition t
  ok : t.Ok
  sound : Sound d.tables d → Sound d'.tables d'

theorem AddStep.id {prior : Prior} {definition : TableDef} {d d' : Draft} {t : Table}
    (h : AddStep prior definition d d' t) :
    t.id = (placeTable prior d.pool t.name d.tables.length).1.id :=
  congrArg Placement.id h.place

theorem foldl_queueStep {α : Type} {f : Draft → α → Draft}
    (h : ∀ d a, ∃ p w, f d a = { d with pending := p, warnings := w }) (as : List α) (d : Draft) :
    ∃ p w, as.foldl f d = { d with pending := p, warnings := w } := by
  induction as generalizing d with
  | nil => exact ⟨d.pending, d.warnings, rfl⟩
  | cons a as ih =>
    obtain ⟨p, w, he⟩ := h d a
    obtain ⟨p', w', he'⟩ := ih (f d a)
    exact ⟨p', w', by rw [List.foldl_cons, he', he]⟩

theorem queueKey_step (id name : String) (d : Draft) (key : KeyDef) :
    ∃ p w, queueKey id name d key = { d with pending := p, warnings := w } := by
  unfold queueKey
  refine foldl_queueStep (fun d a => ?_) _ d
  obtain ⟨column, i⟩ := a
  dsimp only
  split
  · exact ⟨_, d.warnings, rfl⟩
  · exact ⟨d.pending, _, rfl⟩

/-- The columns of a new table at its place, and the draft with what they add to it. -/
def columnsOf (prior : Prior) (d : Draft) (definition : TableDef) : Table × Draft :=
  let place := placeTable prior d.pool definition.name d.tables.length
  definition.columns.foldl (addColumn prior)
    ({ id := place.1.id, name := definition.name, position := place.1.position,
       color := place.1.color }, { d with pool := place.2 })

/-- The draft with a table behind the others, which has the constraints of its definition. -/
def appendTable (definition : TableDef) (id : String) (r : Table × Draft) : Draft :=
  { r.2 with
    tableIds := r.2.tableIds ++ [(Text.lower definition.name, id)]
    tables := r.2.tables ++ [applyConstraints definition r.1] }

theorem addTable_eq (prior : Prior) {d : Draft} {definition : TableDef}
    (h : d.tableId? definition.name = none) :
    addTable prior d definition =
      let id := (placeTable prior d.pool definition.name d.tables.length).1.id
      definition.foreignKeys.foldl (queueKey id definition.name)
        (appendTable definition id (columnsOf prior d definition)) := by
  unfold addTable
  rw [h]
  rfl

/-- **The columns and constraints of a definition**, in a table that has no columns yet. -/
theorem columns_step (prior : Prior) {definition : TableDef} (empty : Table)
    (hname : empty.name = definition.name) (hcolumns : empty.columns = []) (d : Draft) :
    let r := definition.columns.foldl (addColumn prior) (empty, d)
    let t := applyConstraints definition r.1
    t.placement = empty.placement ∧ RealizesTable definition t ∧ t.Ok ∧
      (Sound d.tables d → Sound (r.2.tables ++ [t]) r.2) := by
  have hempty : empty.Ok := by
    constructor
    · simp [Table.foldedTitles, hcolumns]
    · simp [hcolumns]
  obtain ⟨columns, hrealizes, htable⟩ :=
    foldl_addColumn_columns prior definition.columns empty d
  have hstep := foldl_addColumn_step prior definition.columns empty d
  have hok := ok_foldl_addColumn prior definition.columns hempty d
  have hsound : Sound d.tables d → Sound (d.tables ++
      [(definition.columns.foldl (addColumn prior) (empty, d)).1])
      (definition.columns.foldl (addColumn prior) (empty, d)).2 := fun hd =>
    sound_foldl_addColumn prior definition.columns
      (hd.mono (.of_subset (List.subset_append_left _ _)) rfl rfl)
  generalize definition.columns.foldl (addColumn prior) (empty, d) = r at *
  obtain ⟨houtline, hok'⟩ := outline_applyConstraints definition hok
  refine ⟨?_, ?_, hok', fun hd => ?_⟩
  · have hplace : (applyConstraints definition r.1).outline.placement = r.1.outline.placement :=
      congrArg Table.placement houtline
    refine Eq.trans hplace ?_
    rw [htable]
    rfl
  · refine RealizesTable.of_outline ⟨?_, ?_⟩ houtline
    · rw [htable]
      exact hname
    · rw [htable, hcolumns]
      exact hrealizes
  · refine (hsound hd).mono (.of_outline ?_) rfl rfl
    simp only [hstep.tables, List.map_append, List.map_cons, houtline]

theorem addTable_step (prior : Prior) {d : Draft} {definition : TableDef}
    (h : d.tableId? definition.name = none) :
    ∃ t, AddStep prior definition d (addTable prior d definition) t := by
  rw [addTable_eq prior h]
  unfold columnsOf
  dsimp only
  let place := placeTable prior d.pool definition.name d.tables.length
  let empty : Table :=
    { id := place.1.id, name := definition.name, position := place.1.position,
      color := place.1.color }
  have hstep := foldl_addColumn_step prior definition.columns empty { d with pool := place.2 }
  obtain ⟨hplace, hrealizes, hok, hsound⟩ :=
    columns_step prior empty rfl rfl { d with pool := place.2 }
  generalize definition.columns.foldl (addColumn prior) (empty, { d with pool := place.2 }) = r
    at *
  obtain ⟨p, w, hq⟩ := foldl_queueStep (queueKey_step place.1.id definition.name)
    definition.foreignKeys (appendTable definition place.1.id r)
  refine ⟨applyConstraints definition r.1, ?_⟩
  rw [hq]
  constructor
  · exact congrArg (· ++ [applyConstraints definition r.1]) hstep.tables
  · have hid : (applyConstraints definition r.1).id = place.1.id :=
      congrArg Placement.id hplace
    rw [hrealizes.name, hid]
    exact congrArg (· ++ [(Text.lower definition.name, place.1.id)]) hstep.tableIds
  · rw [hrealizes.name]
    exact hplace
  · rw [hrealizes.name]
    exact hstep.pool
  · exact hrealizes
  · exact hok
  · intro hd
    exact (hsound (hd.mono (.of_subset fun _ ht => ht) rfl rfl)).mono
      (.of_subset fun _ ht => ht) rfl rfl

theorem Named.addStep {prior : Prior} {d d' : Draft} {definition : TableDef} {t : Table}
    (h : Named d) (hs : AddStep prior definition d d' t) (hn : d.tableId? t.name = none) :
    Named d' := by
  constructor
  · rw [hs.tableIds, hs.tables, h.tableIds, List.map_append]
    rfl
  · rw [hs.tables, List.map_append]
    exact h.names.append (List.nodup_singleton _)
      (List.disjoint_singleton.2 (h.tableId?_eq_none.1 hn))

/-- The id of a new table is no other table's, since an id of the graph before is kept for its
name. -/
theorem Identified.addStep {previous : Option Graph} {d d' : Draft} {definition : TableDef}
    {t : Table} (h : Identified previous d) (hnamed : Named d)
    (distinct : ∀ g ∈ previous, (g.tables.map (·.id)).Nodup)
    (hs : AddStep (Prior.ofGraph? previous) definition d d' t)
    (hn : d.tableId? t.name = none) : Identified previous d' := by
  have hname := hnamed.tableId?_eq_none.1 hn
  obtain ⟨hpool, hplace⟩ :=
    placeTable_cases (Prior.ofGraph? previous) d.pool t.name d.tables.length
  have hpool' : d.pool.taken ⊆ d'.pool.taken := fun _ hi => hs.pool (hpool hi)
  rw [← hs.id] at hplace
  have hkept : ∀ g ∈ previous, ∀ p ∈ g.tables, t.id = p.id →
      Text.lower t.name = Text.lower p.name := by
    intro g hg p hp he
    rcases hplace with ⟨q, hq, hid⟩ | ⟨hfree, -⟩
    · obtain ⟨g', hg', hqm, hlower⟩ := Prior.mem_of_table? hq
      obtain rfl := Option.mem_unique hg hg'
      have hpq : p = q := List.inj_on_of_nodup_map (distinct g hg) hp hqm (he.symm.trans hid)
      rw [hpq, hlower]
    · exact absurd (he ▸ h.before g hg p hp) hfree
  have hfresh : t.id ∉ d.tables.map (·.id) := by
    intro hm
    obtain ⟨s, hsm, he⟩ := List.mem_map.1 hm
    rcases hplace with ⟨q, hq, hid⟩ | ⟨hfree, -⟩
    · obtain ⟨g, hg, hqm, hlower⟩ := Prior.mem_of_table? hq
      have hsq := h.kept g hg q hqm s hsm (he.trans hid)
      exact hname (List.mem_map.2 ⟨s, hsm, hsq.trans hlower⟩)
    · exact hfree (he ▸ h.taken s hsm)
  have htaken : t.id ∈ d'.pool.taken := by
    rcases hplace with ⟨q, hq, hid⟩ | ⟨-, htaken⟩
    · obtain ⟨g, hg, hqm, -⟩ := Prior.mem_of_table? hq
      exact hid ▸ hpool' (h.before g hg q hqm)
    · exact hs.pool htaken
  constructor
  · rw [hs.tables, List.map_append]
    exact h.ids.append (List.nodup_singleton _) (List.disjoint_singleton.2 hfresh)
  · intro s hsm
    rw [hs.tables] at hsm
    rcases List.mem_append.1 hsm with hsm | hsm
    · exact hpool' (h.taken s hsm)
    · exact List.mem_singleton.1 hsm ▸ htaken
  · exact fun g hg p hp => hpool' (h.before g hg p hp)
  · intro g hg p hp s hsm he
    rw [hs.tables] at hsm
    rcases List.mem_append.1 hsm with hsm | hsm
    · exact h.kept g hg p hp s hsm he
    · obtain rfl := List.mem_singleton.1 hsm
      exact hkept g hg p hp he

/-! ## Later phases -/

/-- **A step after the tables**, which changes no outline. -/
structure LateStep (d d' : Draft) : Prop where
  outline : d'.tables.map Table.outline = d.tables.map Table.outline
  ok : (∀ t ∈ d.tables, t.Ok) → ∀ t ∈ d'.tables, t.Ok
  tableIds : d'.tableIds = d.tableIds
  enums : d'.enums = d.enums
  uses : d'.enumUses = d.enumUses
  pool : d'.pool = d.pool

theorem LateStep.refl (d : Draft) : LateStep d d :=
  ⟨rfl, id, rfl, rfl, rfl, rfl⟩

theorem LateStep.trans {d₁ d₂ d₃ : Draft} (h₁ : LateStep d₁ d₂) (h₂ : LateStep d₂ d₃) :
    LateStep d₁ d₃ :=
  ⟨h₂.outline.trans h₁.outline, fun h => h₂.ok (h₁.ok h), h₂.tableIds.trans h₁.tableIds,
    h₂.enums.trans h₁.enums, h₂.uses.trans h₁.uses, h₂.pool.trans h₁.pool⟩

theorem LateStep.foldl {α : Type} {f : Draft → α → Draft} (h : ∀ d a, LateStep d (f d a))
    (as : List α) (d : Draft) : LateStep d (as.foldl f d) := by
  induction as generalizing d with
  | nil => exact .refl d
  | cons a as ih => exact (h d a).trans (ih (f d a))

theorem LateStep.updateTable (d : Draft) (id : String) {f : Table → Table}
    (ho : ∀ t, (f t).outline = t.outline) (hk : ∀ t, t.Ok → (f t).Ok) :
    LateStep d (d.updateTable id f) where
  outline := map_updateFirst ho d.tables
  ok h t ht := by
    rcases mem_of_mem_updateFirst ht with ht | ⟨s, hs, rfl⟩
    · exact h t ht
    · exact hk s (h s hs)
  tableIds := rfl
  enums := rfl
  uses := rfl
  pool := rfl

theorem indexPhase_step (d : Draft) (s : Statement) : LateStep d (indexPhase d s) := by
  unfold indexPhase
  split
  · unfold addIndex
    split
    · split
      · exact .updateTable d _ (fun t => outline_constrain _ t _) fun t ht => ok_constrain _ ht _
      · exact ⟨rfl, id, rfl, rfl, rfl, rfl⟩
    · exact .refl d
  · exact .refl d

theorem keyPhase_step (d : Draft) (s : Statement) : LateStep d (keyPhase d s) := by
  unfold keyPhase
  split
  · split
    · obtain ⟨p, w, he⟩ := queueKey_step _ _ d _
      rw [he]
      exact ⟨rfl, id, rfl, rfl, rfl, rfl⟩
    · exact ⟨rfl, id, rfl, rfl, rfl, rfl⟩
  · exact .refl d

/-! ## All phases -/

/-- The definitions of tables by the small forms of their names. -/
def namedDefinitions (statements : List Statement) : List (String × TableDef) :=
  statements.filterMap fun
    | .createTable definition => some (Text.lower definition.name, definition)
    | _ => none

/-- **First definitions** of the names of tables, case left aside. -/
def firstDefinitions (statements : List Statement) : List TableDef :=
  (firstOfEach [] (namedDefinitions statements)).map (·.2)

/-- **Invariant of a draft** whose tables are those of `definitions`. Ids are all different if the
graph before has no table id twice. -/
structure Complete (previous : Option Graph) (definitions : List TableDef) (d : Draft) : Prop where
  named : Named d
  identified : (∀ g ∈ previous, (g.tables.map (·.id)).Nodup) → Identified previous d
  sound : Sound d.tables d
  ok : ∀ t ∈ d.tables, t.Ok
  realizes : List.Forall₂ RealizesTable definitions d.tables

theorem Complete.enumStep {previous : Option Graph} {definitions : List TableDef} {d d' : Draft}
    (h : Complete previous definitions d) (hs : EnumStep d d') :
    Complete previous definitions d' where
  named := h.named.mono (by rw [hs.tables]) hs.tableIds
  identified distinct := (h.identified distinct).mono (by rw [hs.tables]) hs.pool
  sound := hs.tables ▸ h.sound.enumStep hs
  ok := hs.tables ▸ h.ok
  realizes := hs.tables ▸ h.realizes

theorem Complete.lateStep {previous : Option Graph} {definitions : List TableDef} {d d' : Draft}
    (h : Complete previous definitions d) (hs : LateStep d d') :
    Complete previous definitions d' where
  named := h.named.mono hs.outline hs.tableIds
  identified distinct :=
    (h.identified distinct).mono hs.outline (hs.pool ▸ List.Subset.refl _)
  sound := h.sound.mono (.of_outline hs.outline) hs.enums hs.uses
  ok := hs.ok h.ok
  realizes := by
    have iff : ∀ tables, List.Forall₂ RealizesTable definitions (tables.map Table.outline) ↔
        List.Forall₂ RealizesTable definitions tables := fun tables => by
      simp only [List.forall₂_map_right_iff, RealizesTable.outline_iff]
    rw [← iff, hs.outline, iff]
    exact h.realizes

theorem Complete.addStep {previous : Option Graph} {definitions : List TableDef} {d d' : Draft}
    {definition : TableDef} {t : Table} (h : Complete previous definitions d)
    (hs : AddStep (Prior.ofGraph? previous) definition d d' t)
    (hn : d.tableId? definition.name = none) :
    Complete previous (definitions ++ [definition]) d' where
  named := h.named.addStep hs (hs.realizes.name ▸ hn)
  identified distinct :=
    (h.identified distinct).addStep h.named distinct hs (hs.realizes.name ▸ hn)
  sound := hs.sound h.sound
  ok := by
    intro s hsm
    rw [hs.tables] at hsm
    rcases List.mem_append.1 hsm with hsm | hsm
    · exact h.ok s hsm
    · exact List.mem_singleton.1 hsm ▸ hs.ok
  realizes := by
    rw [hs.tables]
    exact List.rel_append h.realizes (.cons hs.realizes .nil)

theorem foldl_tablePhase {previous : Option Graph} (statements : List Statement)
    {seen : List String} {definitions : List TableDef} {d : Draft}
    (h : Complete previous definitions d)
    (hseen : ∀ name, name ∈ seen ↔ name ∈ d.tables.map fun t => Text.lower t.name) :
    Complete previous
      (definitions ++ (firstOfEach seen (namedDefinitions statements)).map (·.2))
      (statements.foldl (tablePhase (Prior.ofGraph? previous)) d) := by
  induction statements generalizing seen definitions d with
  | nil => simpa [namedDefinitions, firstOfEach] using h
  | cons s rest ih =>
    cases s with
    | createTable definition =>
      show Complete previous (definitions ++ (firstOfEach seen ((Text.lower definition.name,
        definition) :: namedDefinitions rest)).map (·.2))
        (rest.foldl (tablePhase (Prior.ofGraph? previous))
          (addTable (Prior.ofGraph? previous) d definition))
      unfold firstOfEach
      by_cases hm : Text.lower definition.name ∈ seen
      · have hsome := fun hn => h.named.tableId?_eq_none.1 hn ((hseen _).1 hm)
        obtain ⟨id, hid⟩ := Option.ne_none_iff_exists'.1 hsome
        have hwarn : LateStep d (addTable (Prior.ofGraph? previous) d definition) := by
          unfold addTable
          rw [hid]
          exact ⟨rfl, fun h => h, rfl, rfl, rfl, rfl⟩
        have htables : (addTable (Prior.ofGraph? previous) d definition).tables = d.tables := by
          unfold addTable
          rw [hid]
          rfl
        rw [if_pos (by simpa using hm)]
        exact ih (h.lateStep hwarn) (htables.symm ▸ hseen)
      · have hnone := h.named.tableId?_eq_none.2 (fun hn => hm ((hseen _).2 hn))
        obtain ⟨t, hs⟩ := addTable_step (Prior.ofGraph? previous) hnone
        rw [if_neg (by simpa using hm), List.map_cons, List.append_cons]
        refine ih (h.addStep hs hnone) fun name => ?_
        rw [hs.tables, List.map_append, List.mem_append, List.mem_cons, hseen, List.map_cons,
          List.map_nil, List.mem_singleton, hs.realizes.name, or_comm]
    | _ => exact ih h hseen

/-- The phase of enumerations gives no table. -/
theorem complete_enumPhase (previous : Option Graph) (statements : List Statement) :
    Complete previous [] (statements.foldl (enumPhase (Prior.ofGraph? previous))
      { pool := IdPool.ofGraph? previous }) := by
  have hstart : Complete previous [] { pool := IdPool.ofGraph? previous } :=
    { named := ⟨rfl, List.nodup_nil⟩
      identified := fun _ => .start previous
      sound := ⟨⟨List.nodup_nil, fun _ h => nomatch h⟩, fun _ h => nomatch h⟩
      ok := fun _ h => nomatch h
      realizes := List.Forall₂.nil }
  exact hstart.enumStep (foldl_enumPhase_step (Prior.ofGraph? previous) statements _)

/-- No name is taken in a draft without tables. -/
theorem Complete.mem_names_iff {previous : Option Graph} {d : Draft} (h : Complete previous [] d)
    (name : String) :
    name ∈ ([] : List String) ↔ name ∈ d.tables.map fun t => Text.lower t.name := by
  rw [List.forall₂_nil_left_iff.1 h.realizes]
  exact Iff.rfl

theorem complete_ofStatements (previous : Option Graph) (statements : List Statement) :
    Complete previous (firstDefinitions statements) (ofStatements previous statements) := by
  have henums := complete_enumPhase previous statements
  have htables := foldl_tablePhase statements henums henums.mem_names_iff
  rw [List.nil_append] at htables
  exact (htables.lateStep (.foldl indexPhase_step statements _)).lateStep
    (.foldl keyPhase_step statements _)

end Recovery.Draft

end DdlGraph
