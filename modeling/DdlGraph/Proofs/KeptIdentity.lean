import DdlGraph.Proofs.WellFormed

/-!
# What keeps its identity

A table or an enumeration that the graph before had, under the same name with case left aside, keeps
its id, its place and its colour. What is new gets an id from its name, and stands at the place of
its number. Tables and enumerations take their ids from one pool, and an enumeration for listed
values takes its own between the id of a table and the table; the ids that are allocated but not
used yet (`Identities`, `reserved`) are therefore part of the invariant.

* `Prior.table?_eq`, `Prior.enum?_eq`: the first entity of a name;
* `Identities.addEnum`, `Identities.addTable`: what a step keeps;
* `identities_links`: the draft of a script;
* `recover_keepsIdentity`: tables and enumerations of a recovered graph.
-/

namespace DdlGraph

/-! ## The graph before -/

/-- The first table of that name, case left aside. -/
def Graph.tableNamed? (g : Graph) (name : String) : Option Table :=
  g.tables.find? fun t => Text.lower t.name == Text.lower name

/-- The first enumeration of that name, case left aside. -/
def Graph.enumNamed? (g : Graph) (name : String) : Option Enumeration :=
  g.enums.find? fun e => Text.lower e.name == Text.lower name

/-- The ids of tables and enumerations. -/
def Graph.ids (g : Graph) : List String :=
  g.tables.map (·.id) ++ g.enums.map (·.id)

theorem lookup_firstOfEach {α : Type} {key : String} (entries : List (String × α))
    {seen : List String} (h : key ∉ seen) :
    (firstOfEach seen entries).lookup key = entries.lookup key := by
  induction entries generalizing seen with
  | nil => rfl
  | cons entry rest ih =>
    obtain ⟨name, a⟩ := entry
    unfold firstOfEach
    split
    · rename_i hs
      have hne : (key == name) = false :=
        beq_false_of_ne fun he => h (he ▸ List.contains_iff_mem.1 hs)
      rw [ih h, List.lookup_cons, hne]
    · rw [List.lookup_cons, List.lookup_cons]
      cases hk : key == name with
      | true => rfl
      | false =>
        refine ih fun hm => ?_
        rcases List.mem_cons.1 hm with he | hm
        · exact beq_eq_false_iff_ne.1 hk he
        · exact h hm

theorem lookup_map_eq_find? {α β : Type} (key : α → String) (f : α → β) (as : List α) (k : String) :
    (as.map fun a => (key a, f a)).lookup k = (as.find? fun a => key a == k).map f := by
  induction as with
  | nil => rfl
  | cons a as ih =>
    rw [List.map_cons, List.lookup_cons, List.find?_cons, ih, BEq.comm (a := key a)]
    cases k == key a <;> rfl

theorem Prior.table?_eq (g : Graph) (name : String) :
    (Prior.ofGraph g).table? name = g.tableNamed? name := by
  have hlookup := lookup_map_eq_find? (fun t : Table => Text.lower t.name) id g.tables
    (Text.lower name)
  rw [Option.map_id] at hlookup
  exact (lookup_firstOfEach _ List.not_mem_nil).trans hlookup

theorem Prior.enum?_eq (g : Graph) (name : String) :
    (Prior.ofGraph g).enum? name = g.enumNamed? name := by
  have hlookup := lookup_map_eq_find? (fun e : Enumeration => Text.lower e.name) id g.enums
    (Text.lower name)
  rw [Option.map_id] at hlookup
  exact (lookup_firstOfEach _ List.not_mem_nil).trans hlookup

/-! ## Placed entities -/

/-- What makes an enumeration the same one on the canvas. -/
def Enumeration.placement (e : Enumeration) : Placement :=
  ⟨e.id, e.position, none⟩

/-- The id is `base`, perhaps with a number. -/
def NumberedId (base id : String) : Prop :=
  id = base ∨ ∃ n ≥ 2, id = base ++ "-" ++ toString n

/-- **Placed entity** of a kind and a name: it is where the entity before was, or it is new, the one
of number `index`. -/
def Placed (kind : String) (slot : Nat → Position) (before : Option Placement) (name : String)
    (index : Nat) (place : Placement) : Prop :=
  match before with
  | some old => place = old
  | none => NumberedId (IdPool.baseId kind name) place.id ∧ place.position = slot index ∧
      place.color = none

/-- The ids of tables and enumerations that the graph before did not have. -/
def newIds (p : Graph) (tables : List Table) (enums : List Enumeration) : List String :=
  (tables.filterMap fun t => if (p.tableNamed? t.name).isNone then some t.id else none) ++
    enums.filterMap fun e => if (p.enumNamed? e.name).isNone then some e.id else none

/-- **Identity is kept**: each table and each enumeration is placed after the graph `p`, and the
ids of new ones are no others' ids. -/
structure Graph.KeepsIdentity (p g : Graph) : Prop where
  tables : ∀ k t, g.tables[k]? = some t → Placed "table" Layout.tableSlot
    ((p.tableNamed? t.name).map Table.placement) t.name k t.placement
  enums : ∀ k e, g.enums[k]? = some e → Placed "enum" Layout.enumSlot
    ((p.enumNamed? e.name).map Enumeration.placement) e.name k e.placement
  distinct : (newIds p g.tables g.enums).Nodup
  fresh : ∀ id ∈ newIds p g.tables g.enums, id ∉ p.ids

theorem numberedId_freeId (pool : IdPool) (kind name : String) :
    NumberedId (IdPool.baseId kind name) (pool.freeId kind name) := by
  unfold IdPool.freeId freeName
  split
  · exact .inr ⟨_, Recovery.Draft.leastFree_ge _ _, rfl⟩
  · exact .inl rfl

/-- **Place of a table**: that of the table before, or a new one. -/
theorem placeTable_eq (p : Graph) (pool : IdPool) (name : String) (index : Nat) :
    (∃ q, p.tableNamed? name = some q ∧
        placeTable (Prior.ofGraph p) pool name index = (q.placement, pool)) ∨
      (p.tableNamed? name = none ∧ placeTable (Prior.ofGraph p) pool name index =
        (⟨pool.freeId "table" name, Layout.tableSlot index, none⟩,
          ⟨pool.freeId "table" name :: pool.taken⟩)) := by
  unfold placeTable
  rw [Prior.table?_eq]
  cases p.tableNamed? name with
  | some q => exact .inl ⟨q, rfl, rfl⟩
  | none => exact .inr ⟨rfl, rfl⟩

/-- **Place of an enumeration**: that of the one before, or a new one. -/
theorem placeEnum_eq (p : Graph) (pool : IdPool) (name : String) (index : Nat) :
    (∃ q, p.enumNamed? name = some q ∧
        placeEnum (Prior.ofGraph p) pool name index = (q.placement, pool)) ∨
      (p.enumNamed? name = none ∧ placeEnum (Prior.ofGraph p) pool name index =
        (⟨pool.freeId "enum" name, Layout.enumSlot index, none⟩,
          ⟨pool.freeId "enum" name :: pool.taken⟩)) := by
  unfold placeEnum
  rw [Prior.enum?_eq]
  cases p.enumNamed? name with
  | some q => exact .inl ⟨q, rfl, rfl⟩
  | none => exact .inr ⟨rfl, rfl⟩

/-! ## Ids in use -/

/-- **Allocated ids**: besides the ids of the graph before, just `new` are taken, all different. -/
structure IdPool.Allocates (p : Graph) (new : List String) (pool : IdPool) : Prop where
  taken : pool.taken.Perm (new ++ p.ids)
  distinct : new.Nodup
  fresh : ∀ id ∈ new, id ∉ p.ids

theorem IdPool.Allocates.perm {p : Graph} {new new' : List String} {pool : IdPool}
    (h : pool.Allocates p new) (hn : new.Perm new') : pool.Allocates p new' where
  taken := h.taken.trans (hn.append_right _)
  distinct := hn.nodup_iff.1 h.distinct
  fresh id hid := h.fresh id (hn.mem_iff.2 hid)

/-- An id that is allocated is one more. -/
theorem IdPool.Allocates.cons {p : Graph} {new : List String} {pool : IdPool}
    (h : pool.Allocates p new) (kind name : String) :
    IdPool.Allocates p (pool.freeId kind name :: new) ⟨pool.freeId kind name :: pool.taken⟩ := by
  have hfree := pool.freeId_fresh kind name
  rw [h.taken.mem_iff, List.mem_append, not_or] at hfree
  refine ⟨h.taken.cons _, List.nodup_cons.2 ⟨hfree.1, h.distinct⟩, fun id hid => ?_⟩
  rcases List.mem_cons.1 hid with rfl | hid
  · exact hfree.2
  · exact h.fresh id hid

/-! ## Drafts -/

theorem getElem?_concat {α : Type} {as : List α} {a b : α} {k : Nat}
    (h : (as ++ [a])[k]? = some b) : as[k]? = some b ∨ (k = as.length ∧ b = a) := by
  rcases Nat.lt_or_ge k as.length with hk | hk
  · rw [List.getElem?_append_left hk] at h
    exact .inl h
  · rw [List.getElem?_append_right hk] at h
    obtain ⟨hlt, rfl⟩ := List.getElem?_eq_some_iff.1 h
    rw [List.length_singleton] at hlt
    exact .inr ⟨by omega, List.getElem_singleton _⟩

theorem newIds_concat_enum (p : Graph) (tables : List Table) (enums : List Enumeration)
    (e : Enumeration) : newIds p tables (enums ++ [e]) =
      newIds p tables enums ++ if (p.enumNamed? e.name).isNone then [e.id] else [] := by
  unfold newIds
  rw [List.filterMap_append, List.append_assoc]
  split <;> simp_all

theorem newIds_concat_table (p : Graph) (tables : List Table) (enums : List Enumeration)
    (t : Table) : (newIds p (tables ++ [t]) enums).Perm
      (newIds p tables enums ++ if (p.tableNamed? t.name).isNone then [t.id] else []) := by
  unfold newIds
  rw [List.filterMap_append, List.append_assoc, List.append_assoc]
  refine List.Perm.append_left _ (List.perm_append_comm.trans (.append_left _ ?_))
  split <;> simp_all

namespace Recovery.Draft

open Sql

/-- **Identities of a draft** after the graph `p`: what it has is placed, and the ids that are
allocated are those of its new entities and the ones in `reserved`. -/
structure Identities (p : Graph) (reserved : List String) (d : Draft) : Prop where
  tables : ∀ k t, d.tables[k]? = some t → Placed "table" Layout.tableSlot
    ((p.tableNamed? t.name).map Table.placement) t.name k t.placement
  enums : ∀ k e, d.enums[k]? = some e → Placed "enum" Layout.enumSlot
    ((p.enumNamed? e.name).map Enumeration.placement) e.name k e.placement
  pool : d.pool.Allocates p (newIds p d.tables d.enums ++ reserved)

variable {p : Graph} {reserved : List String} {d d' : Draft}

theorem identities_start (p : Graph) : Identities p [] { pool := IdPool.ofGraph p } where
  tables _ _ h := nomatch h
  enums _ _ h := nomatch h
  pool := ⟨.refl _, List.nodup_nil, fun _ h => nomatch h⟩

theorem Identities.congr (h : Identities p reserved d) (ht : d'.tables = d.tables)
    (he : d'.enums = d.enums) (hp : d'.pool = d.pool) : Identities p reserved d' := by
  obtain ⟨htables, henums, hpool⟩ := h
  constructor
  · rw [ht]
    exact htables
  · rw [he]
    exact henums
  · rw [ht, he, hp]
    exact hpool

/-! ## Enumerations -/

theorem Identities.addEnum (h : Identities p reserved d) (name : String) (values : List String) :
    Identities p reserved (d.addEnum (Prior.ofGraph p) name values).2 := by
  have heq := addEnum_eq (Prior.ofGraph p) d name values
  have hname : (d.addEnum (Prior.ofGraph p) name values).1.name = name :=
    congrArg Enumeration.name heq
  have hid := congrArg Enumeration.id heq
  have hposition := congrArg Enumeration.position heq
  have htables : (d.addEnum (Prior.ofGraph p) name values).2.tables = d.tables := rfl
  have henums : (d.addEnum (Prior.ofGraph p) name values).2.enums =
      d.enums ++ [(d.addEnum (Prior.ofGraph p) name values).1] := rfl
  have hpool : (d.addEnum (Prior.ofGraph p) name values).2.pool =
      (placeEnum (Prior.ofGraph p) d.pool name d.enums.length).2 := rfl
  generalize (d.addEnum (Prior.ofGraph p) name values).1 = e at *
  have hplaced : Placed "enum" Layout.enumSlot
      ((p.enumNamed? e.name).map Enumeration.placement) e.name d.enums.length e.placement ∧
        (placeEnum (Prior.ofGraph p) d.pool name d.enums.length).2.Allocates p
          (newIds p d.tables (d.enums ++ [e]) ++ reserved) := by
    dsimp only at hid hposition
    rw [newIds_concat_enum, hname]
    rcases placeEnum_eq p d.pool name d.enums.length with ⟨q, hq, he⟩ | ⟨hq, he⟩
    · rw [he] at hid hposition ⊢
      rw [hq]
      refine ⟨?_, by simpa using h.pool⟩
      unfold Enumeration.placement
      rw [hid, hposition]
      exact rfl
    · rw [he] at hid hposition ⊢
      rw [hq]
      refine ⟨⟨?_, hposition, rfl⟩, ?_⟩
      · have hnumbered := numberedId_freeId d.pool "enum" name
        exact (show e.placement.id = _ from hid) ▸ hnumbered
      · refine (h.pool.cons "enum" name).perm ?_
        rw [hid, Option.isNone_none, if_pos rfl, List.append_assoc]
        exact List.perm_middle.symm
  constructor
  · rw [htables]
    exact h.tables
  · rw [henums]
    intro k x hx
    rcases getElem?_concat hx with hx | ⟨rfl, rfl⟩
    · exact h.enums k x hx
    · exact hplaced.1
  · rw [htables, henums, hpool]
    exact hplaced.2

theorem Identities.declareEnum (h : Identities p reserved d) (name : String)
    (values : List String) : Identities p reserved (declareEnum (Prior.ofGraph p) d name values) := by
  unfold Draft.declareEnum
  split
  · exact h.congr rfl rfl rfl
  · exact h.addEnum name values

/-- An enumeration for listed values is placed as a declared one. -/
theorem Identities.chooseType (h : Identities p reserved d) (table : String) (c : ColumnDef) :
    Identities p reserved (d.chooseType (Prior.ofGraph p) table c).2 := by
  unfold Draft.chooseType
  split
  · rename_i values _
    rcases inlineEnum_cases (Prior.ofGraph p) d table c.name values with
      ⟨e, -, he⟩ | ⟨-, name, -, he⟩
    · rw [he]
      exact h
    · rw [he]
      exact h.addEnum name values
  · split
    · exact h
    · exact h

/-! ## Tables -/

theorem Identities.addColumn (h : Identities p reserved d) (t : Table) (c : ColumnDef) :
    Identities p reserved (addColumn (Prior.ofGraph p) (t, d) c).2 := by
  rw [addColumn_eq]
  exact (h.chooseType t.name c).congr rfl rfl rfl

theorem Identities.foldl_addColumn (h : Identities p reserved d) (definitions : List ColumnDef)
    (t : Table) :
    Identities p reserved (definitions.foldl (Draft.addColumn (Prior.ofGraph p)) (t, d)).2 := by
  induction definitions generalizing t d with
  | nil => exact h
  | cons c cs ih => exact ih (h.addColumn t c) _

/-- **The id of a table** is allocated before its columns are read. -/
theorem Identities.placeTable (h : Identities p [] d) (name : String) (index : Nat) :
    let r := DdlGraph.placeTable (Prior.ofGraph p) d.pool name index
    Placed "table" Layout.tableSlot ((p.tableNamed? name).map Table.placement) name index r.1 ∧
      Identities p (if (p.tableNamed? name).isNone then [r.1.id] else []) { d with pool := r.2 } := by
  dsimp only
  rcases placeTable_eq p d.pool name index with ⟨q, hq, he⟩ | ⟨hq, he⟩
  · rw [he, hq]
    exact ⟨rfl, h.congr rfl rfl rfl⟩
  · rw [he, hq]
    refine ⟨⟨numberedId_freeId _ _ _, rfl, rfl⟩, h.tables, h.enums, ?_⟩
    have hpool := h.pool.cons "table" name
    rw [List.append_nil] at hpool
    refine hpool.perm ?_
    rw [Option.isNone_none, if_pos rfl]
    exact (List.perm_append_singleton _ _).symm

/-- **The table** takes over the id that was allocated for it. -/
theorem Identities.append {t : Table}
    (h : Identities p (if (p.tableNamed? t.name).isNone then [t.id] else []) d)
    (hplaced : Placed "table" Layout.tableSlot ((p.tableNamed? t.name).map Table.placement) t.name
      d.tables.length t.placement)
    (ht : d'.tables = d.tables ++ [t]) (he : d'.enums = d.enums) (hp : d'.pool = d.pool) :
    Identities p [] d' := by
  constructor
  · rw [ht]
    intro k x hx
    rcases getElem?_concat hx with hx | ⟨rfl, rfl⟩
    · exact h.tables k x hx
    · exact hplaced
  · rw [he]
    exact h.enums
  · rw [ht, he, hp, List.append_nil]
    exact h.pool.perm (newIds_concat_table p d.tables d.enums t).symm

theorem Identities.addTable (h : Identities p [] d) (definition : TableDef) :
    Identities p [] (addTable (Prior.ofGraph p) d definition) := by
  cases hfind : d.tableId? definition.name with
  | some id =>
    unfold Draft.addTable
    rw [hfind]
    exact h.congr rfl rfl rfl
  | none =>
    obtain ⟨hplaced, hreserved⟩ := h.placeTable definition.name d.tables.length
    rw [addTable_eq _ hfind]
    unfold columnsOf
    dsimp only at hplaced hreserved ⊢
    generalize DdlGraph.placeTable (Prior.ofGraph p) d.pool definition.name d.tables.length = place
      at *
    let empty : Table :=
      { id := place.1.id, name := definition.name, position := place.1.position,
        color := place.1.color }
    have hcolumns := hreserved.foldl_addColumn definition.columns empty
    have hstep := foldl_addColumn_step (Prior.ofGraph p) definition.columns empty
      { d with pool := place.2 }
    obtain ⟨hplace, hrealizes, -, -⟩ :=
      columns_step (Prior.ofGraph p) empty rfl rfl { d with pool := place.2 }
    change Identities p [] (definition.foreignKeys.foldl _ (appendTable definition place.1.id
      (definition.columns.foldl (Draft.addColumn (Prior.ofGraph p)) (empty, _))))
    generalize definition.columns.foldl (Draft.addColumn (Prior.ofGraph p))
      (empty, { d with pool := place.2 }) = r at *
    obtain ⟨pending, warnings, hkeys⟩ := foldl_queueStep
      (queueKey_step place.1.id definition.name) definition.foreignKeys
      (appendTable definition place.1.id r)
    have htables : r.2.tables = d.tables := hstep.tables
    have hid : (applyConstraints definition r.1).id = place.1.id := congrArg Placement.id hplace
    rw [hkeys]
    refine Identities.append (t := applyConstraints definition r.1) (d := r.2) ?_ ?_ rfl rfl rfl
    · rw [hrealizes.name, hid]
      exact hcolumns
    · rw [hrealizes.name, hplace, htables]
      exact hplaced

/-! ## All phases -/

/-- New ids depend on names and ids only. -/
theorem newIds_outline {tables tables' : List Table}
    (h : tables'.map Table.outline = tables.map Table.outline) (enums : List Enumeration) :
    newIds p tables' enums = newIds p tables enums := by
  have hmap : ∀ tables : List Table,
      (tables.filterMap fun t => if (p.tableNamed? t.name).isNone then some t.id else none) =
        (tables.map Table.outline).filterMap fun t =>
          if (p.tableNamed? t.name).isNone then some t.id else none := by
    intro tables
    rw [List.filterMap_map]
    rfl
  unfold newIds
  rw [hmap, h, ← hmap]

theorem Identities.lateStep (h : Identities p reserved d) (hs : LateStep d d') :
    Identities p reserved d' where
  tables k t' ht' := by
    have houtline : (d.tables.map Table.outline)[k]? = some t'.outline := by
      rw [← hs.outline, List.getElem?_map, ht']
      rfl
    obtain ⟨t, ht, ho⟩ := Option.map_eq_some_iff.1 ((List.getElem?_map ..).symm.trans houtline)
    have hname : t.outline.name = t'.outline.name := congrArg Table.name ho
    have hplacement : t.outline.placement = t'.outline.placement := congrArg Table.placement ho
    have hplaced := h.tables k t ht
    change Placed _ _ ((p.tableNamed? t.outline.name).map _) t.outline.name k t.outline.placement
      at hplaced
    rw [hname, hplacement] at hplaced
    exact hplaced
  enums := by
    rw [hs.enums]
    exact h.enums
  pool := by
    rw [newIds_outline hs.outline, hs.enums, hs.pool]
    exact h.pool

theorem identities_foldl_tables (statements : List Statement) (h : Identities p [] d) :
    Identities p [] (statements.foldl (tablePhase (Prior.ofGraph p)) d) := by
  induction statements generalizing d with
  | nil => exact h
  | cons s rest ih =>
    cases s with
    | createTable definition => exact ih (h.addTable definition)
    | _ => exact ih h

theorem identities_foldl_enums (statements : List Statement) (h : Identities p [] d) :
    Identities p [] (statements.foldl (enumPhase (Prior.ofGraph p)) d) := by
  induction statements generalizing d with
  | nil => exact h
  | cons s rest ih =>
    cases s with
    | createType name values => exact ih (h.declareEnum name values)
    | _ => exact ih h

/-- **Identities of a script**, after its last phase. -/
theorem identities_links (p : Graph) (statements : List Statement) :
    Identities p [] (ofStatements (some p) statements).links.1 := by
  have htables := identities_foldl_tables statements
    (identities_foldl_enums statements (identities_start p))
  have hindexes := htables.lateStep (.foldl indexPhase_step statements _)
  have hkeys := hindexes.lateStep (.foldl keyPhase_step statements _)
  exact hkeys.lateStep (lateStep_links _)

end Recovery.Draft

/-! ## Outcome -/

namespace Recovery

open Sql Draft

/-- **The draft of a script** keeps the identities of the graph before. -/
theorem keepsIdentity_links (previous : Option Graph) (statements : List Statement)
    (edges : List Edge) : (previous.getD {}).KeepsIdentity
      { tables := (ofStatements previous statements).links.1.tables
        enums := (ofStatements previous statements).links.1.enums
        edges } := by
  have hsome : ofStatements previous statements =
      ofStatements (some (previous.getD {})) statements := by
    cases previous <;> rfl
  rw [hsome]
  obtain ⟨htables, henums, hpool⟩ := identities_links (previous.getD {}) statements
  rw [List.append_nil] at hpool
  exact ⟨htables, henums, hpool.distinct, hpool.fresh⟩

/-- **Identity survives a reading**: what the graph before had keeps its id, its place and its
colour, and the rest is new. -/
theorem recover_keepsIdentity {text : String} {previous : Option Graph} {o : Outcome}
    (h : recover text previous = .ok o) : (previous.getD {}).KeepsIdentity o.graph := by
  obtain ⟨-, rfl⟩ := recover_eq_ok_iff.1 h
  exact keepsIdentity_links previous (Script.ofText text).statements _

set_option maxRecDepth 2000 in
/-- A table and an enumeration that were there before, an enumeration for listed values, and a table
whose id is taken by another one of the graph before. -/
theorem recover_keepsIdentity_orders :
    ∃ o, recover "CREATE TYPE state AS ENUM ('open', 'paid');
        CREATE TABLE users (id INT, kind ENUM('new', 'old'));
        CREATE TABLE orders (id INT, state state);"
      (some
        { tables := [{ id := "table-orders", name := "USERS", position := ⟨.ofNat 4, .ofNat 2⟩ }]
          enums := [{ id := "enum-1", name := "State" }] }) = .ok o ∧
      Graph.KeepsIdentity
        { tables := [{ id := "table-orders", name := "USERS", position := ⟨.ofNat 4, .ofNat 2⟩ }]
          enums := [{ id := "enum-1", name := "State" }] } o.graph ∧
      o.graph.tables.map Table.placement = [⟨"table-orders", ⟨.ofNat 4, .ofNat 2⟩, none⟩,
        ⟨"table-orders-2", Layout.tableSlot 1, none⟩] ∧
      o.graph.enums.map (·.id) = ["enum-1", "enum-users_kind"] := by
  let text := "CREATE TYPE state AS ENUM ('open', 'paid');
        CREATE TABLE users (id INT, kind ENUM('new', 'old'));
        CREATE TABLE orders (id INT, state state);"
  let previous : Option Graph := some
    { tables := [{ id := "table-orders", name := "USERS", position := ⟨.ofNat 4, .ofNat 2⟩ }]
      enums := [{ id := "enum-1", name := "State" }] }
  obtain ⟨statements, hread, hne, htables, henums⟩ :
      ∃ statements, (Script.ofText text).statements = statements ∧
      (ofStatements previous statements).links.1.tables ≠ [] ∧
      (ofStatements previous statements).links.1.tables.map Table.placement =
        [⟨"table-orders", ⟨.ofNat 4, .ofNat 2⟩, none⟩,
          ⟨"table-orders-2", Layout.tableSlot 1, none⟩] ∧
      (ofStatements previous statements).links.1.enums.map (·.id) =
        ["enum-1", "enum-users_kind"] :=
    ⟨_, Script.statements_ofList _, by decide +kernel⟩
  have h := recover_of_statements hread previous hne
  exact ⟨_, h, recover_keepsIdentity h, htables, henums⟩

end Recovery

end DdlGraph
