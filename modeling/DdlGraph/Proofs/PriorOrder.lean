import DdlGraph.Proofs.Reread
import DdlGraph.Proofs.StatementOrder

/-!
# The order of the graph before

The graph before is asked for the table and the enumeration of a name, for an enumeration with just
some values, for the ids that are taken, and for the style of an edge with some key. If its names and
keys are different, no answer hangs on the order of its lists (`Prior.Agrees`), and so neither does
the reading of a text. All that differs between two drafts is the order of their taken ids
(`Draft.Alike`), and no step sees it.

* `IdPool.freeId_of_perm`: a new id does not hang on the order of those that are taken;
* `Prior.agrees_of_perm`, `reconcileEdges_of_perm`: what the graph before is asked for;
* `Alike.addColumn`, `Alike.addTable`: the steps that ask it;
* `recover_perm`: the outcome is the same.
-/

namespace DdlGraph

/-! ## Taken ids -/

theorem IdPool.freeId_of_perm {pool pool' : IdPool} (h : pool.taken.Perm pool'.taken)
    (kind name : String) : pool.freeId kind name = pool'.freeId kind name := by
  have hcontains : pool.taken.contains = pool'.taken.contains :=
    funext fun id => h.contains_eq
  unfold freeId
  rw [hcontains, h.length_eq]

theorem IdPool.allocate_of_perm {pool pool' : IdPool} (h : pool.taken.Perm pool'.taken)
    (kind name : String) : (pool'.allocate kind name).1 = (pool.allocate kind name).1 ∧
      (pool.allocate kind name).2.taken.Perm (pool'.allocate kind name).2.taken := by
  unfold allocate
  dsimp only
  rw [freeId_of_perm h]
  exact ⟨rfl, h.cons _⟩

/-! ## Answers -/

/-- **Two views of the graph before that give the same answers.** -/
structure Prior.Agrees (p q : Prior) : Prop where
  table : ∀ name, q.table? name = p.table? name
  enum : ∀ name, q.enum? name = p.enum? name
  listed : ∀ values, q.enumWithValues? values = p.enumWithValues? values

/-- Names are ordered: of two different ones just one is the lesser. -/
theorem lt_or_gt_of_name_ne {s t : String} (h : s ≠ t) : (s < t ∧ ¬t < s) ∨ (t < s ∧ ¬s < t) := by
  by_cases hlt : s < t
  · exact .inl ⟨hlt, String.lt_asymm hlt⟩
  · refine .inr ⟨?_, hlt⟩
    by_contra hgt
    exact h (String.le_antisymm (String.not_lt.1 hgt) (String.not_lt.1 hlt))

/-- Of several enumerations the one with the least name is found in every order. -/
theorem Prior.foldl_lesserName_of_perm {enums enums' : List Enumeration} (h : enums.Perm enums')
    (hn : (enums.map (·.name)).Nodup) :
    enums.foldl lesserName none = enums'.foldl lesserName none := by
  refine h.foldl_eq' (fun e he f hf best => ?_) none
  by_cases hef : e = f
  · rw [hef]
  have hne : e.name ≠ f.name := fun hname => hef (List.inj_on_of_nodup_map hn he hf hname)
  cases best with
  | none =>
    unfold lesserName
    rcases lt_or_gt_of_name_ne hne with ⟨hlt, hgt⟩ | ⟨hlt, hgt⟩
    · simp [hlt, hgt]
    · simp [hlt, hgt]
  | some b =>
    unfold lesserName
    have hef := lt_or_gt_of_name_ne hne
    grind

/-- **A graph in another order** gives the same answers, if its names are different. -/
theorem Prior.agrees_of_perm {p q : Graph} (tables : p.tables.Perm q.tables)
    (enums : p.enums.Perm q.enums) (ht : (p.tables.map fun t => Text.lower t.name).Nodup)
    (hn : (p.enums.map fun e => Text.lower e.name).Nodup) :
    (ofGraph p).Agrees (ofGraph q) where
  table name := by
    rw [table?_eq, table?_eq]
    exact (find?_eq_of_perm tables ht fun a _ b _ ha hb =>
      (eq_of_beq ha).trans (eq_of_beq hb).symm).symm
  enum name := by
    rw [enum?_eq, enum?_eq]
    exact (find?_eq_of_perm enums hn fun a _ b _ ha hb =>
      (eq_of_beq ha).trans (eq_of_beq hb).symm).symm
  listed values := by
    have hnames : (p.enums.map (·.name)).Nodup :=
      List.Nodup.of_map Text.lower (by rw [List.map_map]; exact hn)
    rw [enumWithValues?_ofGraph hn, enumWithValues?_ofGraph ((enums.map _).nodup_iff.1 hn)]
    exact (foldl_lesserName_of_perm (enums.filter _)
      (hnames.sublist (List.filter_sublist.map _))).symm

section
variable {prior prior' : Prior} (hprior : prior.Agrees prior') {pool pool' : IdPool}
  (hp : pool.taken.Perm pool'.taken) (name : String) (index : Nat)
include hprior hp

theorem placeEnum_of_perm :
    (placeEnum prior' pool' name index).1 = (placeEnum prior pool name index).1 ∧
      (placeEnum prior pool name index).2.taken.Perm
        (placeEnum prior' pool' name index).2.taken := by
  obtain ⟨hid, hpool⟩ := IdPool.allocate_of_perm hp "enum" name
  unfold placeEnum
  rw [hprior.enum]
  cases prior.enum? name with
  | some before => exact ⟨rfl, hp⟩
  | none =>
    dsimp only
    rw [hid]
    exact ⟨rfl, hpool⟩

theorem placeTable_of_perm :
    (placeTable prior' pool' name index).1 = (placeTable prior pool name index).1 ∧
      (placeTable prior pool name index).2.taken.Perm
        (placeTable prior' pool' name index).2.taken := by
  obtain ⟨hid, hpool⟩ := IdPool.allocate_of_perm hp "table" name
  unfold placeTable
  rw [hprior.table]
  cases prior.table? name with
  | some before => exact ⟨rfl, hp⟩
  | none =>
    dsimp only
    rw [hid]
    exact ⟨rfl, hpool⟩

end

/-- Edges with different keys give the same styles in another order. -/
theorem reconcileEdges_of_perm {edges edges' : List Edge} (h : edges.Perm edges')
    (hn : (edges.map Edge.key).Nodup) (links : List Link) :
    reconcileEdges edges' links = reconcileEdges edges links := by
  have hstyles : ∀ key, (stylesByKey edges').lookup key = (stylesByKey edges).lookup key := by
    intro key
    have hfind : edges'.reverse.find? (·.key == key) = edges.reverse.find? (·.key == key) := by
      refine find?_eq_of_perm ((List.reverse_perm _).trans (h.symm.trans (List.reverse_perm _).symm))
        ?_ fun a _ b _ ha hb => (eq_of_beq ha).trans (eq_of_beq hb).symm
      rw [List.map_reverse]
      exact List.nodup_reverse.2 ((h.map _).nodup_iff.1 hn)
    unfold stylesByKey
    rw [lookup_map_eq_find?, lookup_map_eq_find?, hfind]
  refine Recovery.reconcileAfter_congr fun l _ => ?_
  unfold Link.toEdge
  rw [hstyles, hstyles]

/-! ## Drafts -/

namespace Recovery

open Sql

namespace Draft

/-- **Two drafts that are alike**: the same ids are taken, in another order perhaps. -/
def Alike (d d' : Draft) : Prop :=
  ∃ (e : Draft) (pool pool' : IdPool), pool.taken.Perm pool'.taken ∧ d = e.withPool pool ∧
    d' = e.withPool pool'

/-- What a step returns besides the draft is the same, and the drafts are alike. -/
def AlikeAfter {α : Type} (r r' : α × Draft) : Prop :=
  r'.1 = r.1 ∧ Alike r.2 r'.2

/-- A step that does not look at the taken ids. -/
theorem Alike.step {f : Draft → Draft} (hf : ∀ d pool, f (d.withPool pool) = (f d).withPool pool)
    {d d' : Draft} (h : Alike d d') : Alike (f d) (f d') := by
  obtain ⟨e, pool, pool', hp, rfl, rfl⟩ := h
  exact ⟨f e, pool, pool', hp, hf e pool, hf e pool'⟩

/-- What is asked of a draft besides the taken ids. -/
theorem Alike.eq {α : Type} {f : Draft → α} (hf : ∀ d pool, f (d.withPool pool) = f d)
    {d d' : Draft} (h : Alike d d') : f d' = f d := by
  obtain ⟨e, pool, pool', -, rfl, rfl⟩ := h
  rw [hf, hf]

section
variable {prior prior' : Prior} (hprior : prior.Agrees prior')
include hprior

/-! ## Enumerations -/

theorem Alike.addEnum {d d' : Draft} (h : Alike d d') (name : String) (values : List String) :
    AlikeAfter (d.addEnum prior name values) (d'.addEnum prior' name values) := by
  obtain ⟨e, pool, pool', hp, rfl, rfl⟩ := h
  obtain ⟨hplace, hpool⟩ := placeEnum_of_perm hprior hp name e.enums.length
  unfold Draft.addEnum
  dsimp only [withPool]
  rw [hplace]
  exact ⟨rfl, { e with enums := e.enums ++ [_] }, _, _, hpool, rfl, rfl⟩

theorem Alike.declareEnum {d d' : Draft} (h : Alike d d') (name : String) (values : List String) :
    Alike (declareEnum prior d name values) (declareEnum prior' d' name values) := by
  have henums : d'.enums = d.enums := h.eq fun _ _ => rfl
  unfold Draft.declareEnum
  rw [henums]
  cases enumByName? d.enums name with
  | some _ => exact h.step (f := (·.warn _)) fun _ _ => rfl
  | none => exact (h.addEnum hprior name values).2

theorem Alike.inlineEnum {d d' : Draft} (h : Alike d d') (table column : String)
    (values : List String) : AlikeAfter (d.inlineEnum prior table column values)
      (d'.inlineEnum prior' table column values) := by
  have henums : d'.enums = d.enums := h.eq fun _ _ => rfl
  have hname : d'.columnEnumName table column = d.columnEnumName table column :=
    h.eq (f := (·.columnEnumName table column)) fun _ _ => rfl
  unfold Draft.inlineEnum
  rw [henums, hname, hprior.listed]
  cases d.enums.find? (·.values = values) with
  | some e => exact ⟨rfl, h⟩
  | none =>
    dsimp only
    split
    · exact h.addEnum hprior _ values
    · exact h.addEnum hprior _ values

theorem Alike.chooseType {d d' : Draft} (h : Alike d d') (table : String) (c : ColumnDef) :
    AlikeAfter (d.chooseType prior table c) (d'.chooseType prior' table c) := by
  have hknown : d'.knownEnum? c.typeName = d.knownEnum? c.typeName :=
    h.eq (f := (·.knownEnum? c.typeName)) fun _ _ => rfl
  unfold Draft.chooseType
  rw [hknown]
  cases c.inlineValues with
  | some values =>
    obtain ⟨henum, halike⟩ := h.inlineEnum hprior table c.name values
    dsimp only
    rw [henum]
    exact ⟨rfl, halike⟩
  | none =>
    dsimp only
    split
    · exact ⟨rfl, h⟩
    · exact ⟨rfl, h⟩

/-! ## Tables -/

/-- **A column** gets the same type, and is added to the same table. -/
theorem AlikeAfter.addColumn {r r' : Table × Draft} (h : AlikeAfter r r') (c : ColumnDef) :
    AlikeAfter (addColumn prior r c) (addColumn prior' r' c) := by
  obtain ⟨t, d⟩ := r
  obtain ⟨t', d'⟩ := r'
  obtain ⟨rfl, halike⟩ : t' = t ∧ Alike d d' := h
  obtain ⟨htype, halike⟩ := halike.chooseType hprior t'.name c
  rw [addColumn_eq, addColumn_eq]
  dsimp only
  rw [htype]
  generalize (d.chooseType prior t'.name c).2 = chosen at halike ⊢
  generalize (d'.chooseType prior' t'.name c).2 = chosen' at halike ⊢
  obtain ⟨e, pool, pool', hp, rfl, rfl⟩ := halike
  refine ⟨rfl, ?_⟩
  exact Alike.step (f := fun d => { d with enumUses := _, pending := _ }) (fun _ _ => rfl)
    ⟨e, pool, pool', hp, rfl, rfl⟩

theorem Alike.columnsOf {d d' : Draft} (h : Alike d d') (definition : TableDef) :
    AlikeAfter (columnsOf prior d definition) (columnsOf prior' d' definition) := by
  obtain ⟨e, pool, pool', hp, rfl, rfl⟩ := h
  obtain ⟨hplace, hpool⟩ := placeTable_of_perm hprior hp definition.name e.tables.length
  unfold Draft.columnsOf
  dsimp only [withPool]
  rw [hplace]
  exact List.foldl_rel ⟨rfl, e, _, _, hpool, rfl, rfl⟩ fun c _ r r' hr => hr.addColumn hprior c

/-- **A table** gets the same id and the same place. -/
theorem Alike.addTable {d d' : Draft} (h : Alike d d') (definition : TableDef) :
    Alike (addTable prior d definition) (addTable prior' d' definition) := by
  have hid : d'.tableId? definition.name = d.tableId? definition.name :=
    h.eq (f := (·.tableId? definition.name)) fun _ _ => rfl
  cases hfind : d.tableId? definition.name with
  | some id =>
    unfold Draft.addTable
    rw [hid, hfind]
    exact h.step (f := (·.warn _)) fun _ _ => rfl
  | none =>
    have hplace : (placeTable prior' d'.pool definition.name d'.tables.length).1 =
        (placeTable prior d.pool definition.name d.tables.length).1 := by
      obtain ⟨e, pool, pool', hp, rfl, rfl⟩ := h
      exact (placeTable_of_perm hprior hp definition.name e.tables.length).1
    obtain ⟨htable, hcolumns⟩ := h.columnsOf hprior definition
    rw [addTable_eq prior hfind, addTable_eq prior' (hid.trans hfind)]
    dsimp only
    rw [hplace]
    generalize (placeTable prior d.pool definition.name d.tables.length).1.id = id
    refine List.foldl_rel ?_ fun key _ d d' hd =>
      hd.step (f := (queueKey id definition.name · key)) fun d pool =>
        queueKey_withPool id definition.name d pool key
    unfold appendTable
    rw [htable]
    exact hcolumns.step (f := fun d => { d with tableIds := d.tableIds ++ _, tables := d.tables ++ _ })
      fun _ _ => rfl

end

/-! ## All phases -/

/-- **Each phase** gives drafts that are alike. -/
theorem Alike.ofStatements {previous previous' : Option Graph}
    (hprior : (Prior.ofGraph? previous).Agrees (Prior.ofGraph? previous'))
    (hpool : (IdPool.ofGraph? previous).taken.Perm (IdPool.ofGraph? previous').taken)
    (statements : List Statement) :
    Alike (ofStatements previous statements) (ofStatements previous' statements) := by
  unfold Draft.ofStatements
  refine List.foldl_rel (List.foldl_rel (List.foldl_rel (List.foldl_rel
    ⟨{ pool := {} }, _, _, hpool, rfl, rfl⟩ ?_) ?_) ?_) ?_
  · rintro s - d d' h
    cases s with
    | createType name values => exact h.declareEnum hprior name values
    | _ => exact h
  · rintro s - d d' h
    cases s with
    | createTable definition => exact h.addTable hprior definition
    | _ => exact h
  · exact fun s _ d d' h => h.step (f := (indexPhase · s)) fun d pool => indexPhase_withPool d pool s
  · exact fun s _ d d' h => h.step (f := (keyPhase · s)) fun d pool => keyPhase_withPool d pool s

end Draft

/-! ## Outcome -/

/-- **The order of the graph before does not matter.** If names of tables are different with case
left aside, and so are those of enumerations, and if no two edges have the same key, then a text has
the same outcome, or the same failure, against the graph in every order of its lists. -/
theorem recover_perm (text : String) {p q : Graph} (tables : p.tables.Perm q.tables)
    (enums : p.enums.Perm q.enums) (edges : p.edges.Perm q.edges)
    (ht : (p.tables.map fun t => Text.lower t.name).Nodup)
    (hn : (p.enums.map fun e => Text.lower e.name).Nodup) (hk : (p.edges.map Edge.key).Nodup) :
    recover text (some q) = recover text (some p) := by
  have hprior : (Prior.ofGraph? (some p)).Agrees (Prior.ofGraph? (some q)) :=
    Prior.agrees_of_perm tables enums ht hn
  have hpool : (IdPool.ofGraph? (some p)).taken.Perm (IdPool.ofGraph? (some q)).taken :=
    (tables.map _).append (enums.map _)
  have hedges : ∀ links, reconcileEdges (Prior.ofGraph? (some q)).edges links =
      reconcileEdges (Prior.ofGraph? (some p)).edges links := reconcileEdges_of_perm edges hk
  obtain ⟨e, pool, pool', -, hp, hq⟩ :=
    Draft.Alike.ofStatements hprior hpool (Script.ofText text).statements
  unfold recover
  dsimp only
  rw [hp, hq, Draft.links_withPool, Draft.links_withPool]
  unfold Outcome.ofDraft
  rw [hedges]
  rfl

/-- Two enumerations of the graph before have the listed values, and two edges give their looks. -/
theorem recover_perm_orders :
    let orders : Table := { id := "table-1", name := "Orders", position := Layout.tableSlot 7 }
    let users : Table := { id := "table-2", name := "Users", color := some ⟨"#fff", "#000", "#888"⟩ }
    let state : Enumeration := { id := "enum-1", name := "state", values := ["on", "off"] }
    let flag : Enumeration := { id := "enum-2", name := "flag", values := ["on", "off"] }
    let placed : Edge :=
      { id := "edge-1", source := "table-1", sourceHandle := "user_id", target := "table-2",
        targetHandle := "id", cardinality := .manyToOne, style := { label := some "placed by" } }
    let held : Edge :=
      { id := "edge-2", source := "enum-2", sourceHandle := "flag", target := "table-2",
        targetHandle := "state", cardinality := .oneToMany, style := { animated := true } }
    let text := "CREATE TABLE users (id INT, state ENUM('on', 'off'));
      CREATE TABLE orders (user_id INT REFERENCES users(id));"
    recover text (some ⟨[orders, users], [state, flag], [placed, held]⟩) =
      recover text (some ⟨[users, orders], [flag, state], [held, placed]⟩) :=
  recover_perm _ (.swap _ _ _) (.swap _ _ _) (.swap _ _ _) (by decide +kernel) (by decide +kernel)
    (by decide +kernel)

end Recovery

end DdlGraph
