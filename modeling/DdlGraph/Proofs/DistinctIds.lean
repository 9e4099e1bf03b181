import DdlGraph.Proofs.KeptIdentity

/-!
# Ids of a reading are different

New ids are different from all others, and what keeps its identity has an id of the graph before. So
an id can stand twice only if two entities of a reading take the identity of the same one. Names of
tables differ in more than case, so tables never do. Names of enumerations differ when just the case
of ASCII letters is left aside, while the graph before is searched with all cases left aside: there
it can happen, and only there.

* `KeepsIdentity.apart`, `KeepsIdentity.lower_eq_of_id_eq`: whose ids can be the same;
* `KeepsIdentity.id_eq_of_known`: what takes the same identity has the same id;
* `KeepsIdentity.enumIds_nodup_iff`: when the ids of enumerations are different;
* `recover_ids_nodup_iff`: so are all ids, together, exactly if known names are told apart.
-/

namespace DdlGraph

/-! ## Ids of a reading -/

theorem newIds_eq (p : Graph) (tables : List Table) (enums : List Enumeration) :
    newIds p tables enums = (tables.filter fun t => (p.tableNamed? t.name).isNone).map (·.id) ++
      (enums.filter fun e => (p.enumNamed? e.name).isNone).map (·.id) := by
  have hfilter : ∀ {α : Type} (new : α → Bool) (id : α → String) (as : List α),
      (as.filterMap fun a => if new a then some (id a) else none) = (as.filter new).map id := by
    intro α new id as
    induction as with
    | nil => rfl
    | cons a as ih => cases h : new a <;> simp [h, ih]
  unfold newIds
  rw [hfilter, hfilter]

namespace Graph.KeepsIdentity

variable {p g : Graph} (h : p.KeepsIdentity g)
include h

/-- The id of a table is that of a table of its name before, or new. -/
theorem table_cases {t : Table} (ht : t ∈ g.tables) :
    (∃ q ∈ p.tables, q.id = t.id) ∨
      t.id ∈ (g.tables.filter fun t => (p.tableNamed? t.name).isNone).map (·.id) := by
  obtain ⟨k, hk⟩ := List.getElem?_of_mem ht
  have hplaced := h.tables k t hk
  cases hn : p.tableNamed? t.name with
  | some q =>
    rw [hn] at hplaced
    have hid : t.id = q.id := congrArg Placement.id hplaced
    exact .inl ⟨q, List.mem_of_find?_eq_some hn, hid.symm⟩
  | none => exact .inr (List.mem_map_of_mem (List.mem_filter.2 ⟨ht, by rw [hn]; rfl⟩))

/-- The id of an enumeration is that of one of its name before, or new. -/
theorem enum_cases {e : Enumeration} (he : e ∈ g.enums) :
    (∃ q ∈ p.enums, q.id = e.id ∧ Text.lower q.name = Text.lower e.name) ∨
      e ∈ g.enums.filter fun e => (p.enumNamed? e.name).isNone := by
  obtain ⟨k, hk⟩ := List.getElem?_of_mem he
  have hplaced := h.enums k e hk
  cases hn : p.enumNamed? e.name with
  | some q =>
    rw [hn] at hplaced
    have hid : e.id = q.id := congrArg Placement.id hplaced
    have hname := List.find?_some hn
    exact .inl ⟨q, List.mem_of_find?_eq_some hn, hid.symm, eq_of_beq hname⟩
  | none => exact .inr (List.mem_filter.2 ⟨he, by rw [hn]; rfl⟩)

/-- **A table and an enumeration** never share an id. -/
theorem apart (hp : p.ids.Nodup) {t : Table} (ht : t ∈ g.tables) {e : Enumeration}
    (he : e ∈ g.enums) : t.id ≠ e.id := by
  have hdistinct := h.distinct
  have hfresh := h.fresh
  rw [newIds_eq] at hdistinct hfresh
  intro hid
  rcases h.table_cases ht with ⟨q, hq, hqid⟩ | hnew
  · rcases h.enum_cases he with ⟨r, hr, hrid, -⟩ | hnew'
    · exact (List.nodup_append.1 hp).2.2 _ (List.mem_map_of_mem hq) _ (List.mem_map_of_mem hr)
        (hqid.trans (hid.trans hrid.symm))
    · refine hfresh e.id (List.mem_append_right _ (List.mem_map_of_mem hnew')) ?_
      rw [← hid, ← hqid]
      exact List.mem_append_left _ (List.mem_map_of_mem hq)
  · rcases h.enum_cases he with ⟨r, hr, hrid, -⟩ | hnew'
    · refine hfresh t.id (List.mem_append_left _ hnew) ?_
      rw [hid, ← hrid]
      exact List.mem_append_right _ (List.mem_map_of_mem hr)
    · exact (List.nodup_append.1 hdistinct).2.2 _ hnew _ (List.mem_map_of_mem hnew') hid

/-- **Two enumerations** share an id only if their names differ in case only. -/
theorem lower_eq_of_id_eq (hp : p.ids.Nodup) {e f : Enumeration} (he : e ∈ g.enums)
    (hf : f ∈ g.enums) (hid : e.id = f.id) : Text.lower e.name = Text.lower f.name := by
  have hdistinct := h.distinct
  have hfresh := h.fresh
  rw [newIds_eq] at hdistinct hfresh
  have hnew : ∀ e ∈ g.enums.filter fun e => (p.enumNamed? e.name).isNone, ∀ q ∈ p.enums,
      q.id ≠ e.id := by
    intro e he q hq hid
    refine hfresh e.id (List.mem_append_right _ (List.mem_map_of_mem he)) ?_
    rw [← hid]
    exact List.mem_append_right _ (List.mem_map_of_mem hq)
  rcases h.enum_cases he with ⟨q, hq, hqid, hqname⟩ | he'
  · rcases h.enum_cases hf with ⟨r, hr, hrid, hrname⟩ | hf'
    · have hqr : q = r := List.inj_on_of_nodup_map (List.nodup_append.1 hp).2.1 hq hr
        (hqid.trans (hid.trans hrid.symm))
      rw [← hqname, ← hrname, hqr]
    · exact absurd (hqid.trans hid) (hnew f hf' q hq)
  · rcases h.enum_cases hf with ⟨r, hr, hrid, -⟩ | hf'
    · exact absurd (hrid.trans hid.symm) (hnew e he' r hr)
    · rw [List.inj_on_of_nodup_map (List.nodup_append.1 hdistinct).2.1 he' hf' hid]

end Graph.KeepsIdentity

/-- Without a graph before, all ids are different. -/
theorem Graph.KeepsIdentity.ids_nodup {g : Graph} (h : ({} : Graph).KeepsIdentity g) :
    g.ids.Nodup := by
  have hdistinct := h.distinct
  have htables : (g.tables.filter fun t => (({} : Graph).tableNamed? t.name).isNone) = g.tables :=
    List.filter_eq_self.2 fun _ _ => rfl
  have henums : (g.enums.filter fun e => (({} : Graph).enumNamed? e.name).isNone) = g.enums :=
    List.filter_eq_self.2 fun _ _ => rfl
  rw [newIds_eq, htables, henums] at hdistinct
  exact hdistinct

/-! ## Enumerations of a reading -/

/-- The enumerations of a reading that take the identity of one of the graph before. -/
def Graph.knownEnums (p g : Graph) : List Enumeration :=
  g.enums.filter fun e => (p.enumNamed? e.name).isSome

/-- **Known names are told apart**: no two enumerations take the identity of the same one. -/
def Graph.KnownApart (p g : Graph) : Prop :=
  ((p.knownEnums g).map fun e => Text.lower e.name).Nodup

instance (p g : Graph) : Decidable (p.KnownApart g) :=
  inferInstanceAs (Decidable (List.Nodup _))

namespace Graph.KeepsIdentity

variable {p g : Graph} (h : p.KeepsIdentity g)
include h

/-- Enumerations under one name, case left aside, take the same id, if that name is known. -/
theorem id_eq_of_known {e f : Enumeration} (he : e ∈ p.knownEnums g) (hf : f ∈ g.enums)
    (hname : Text.lower e.name = Text.lower f.name) : e.id = f.id := by
  obtain ⟨he, hknown⟩ := List.mem_filter.1 he
  obtain ⟨q, hq⟩ := Option.isSome_iff_exists.1 hknown
  have hq' : p.enumNamed? f.name = some q := by
    rw [← hq]
    unfold enumNamed?
    rw [hname]
  have hid : ∀ {e : Enumeration}, e ∈ g.enums → p.enumNamed? e.name = some q → e.id = q.id := by
    intro e he hq
    obtain ⟨k, hk⟩ := List.getElem?_of_mem he
    have hplaced := h.enums k e hk
    rw [hq] at hplaced
    exact congrArg Placement.id hplaced
  exact (hid he hq).trans (hid hf hq').symm

/-- **Ids of enumerations** are different exactly if known names are told apart. -/
theorem enumIds_nodup_iff (hp : p.ids.Nodup) :
    (g.enums.map (·.id)).Nodup ↔ p.KnownApart g := by
  have hknown : ∀ e ∈ p.knownEnums g, e ∈ g.enums := fun e he => (List.mem_filter.1 he).1
  constructor
  · intro hids
    have hsub : ((p.knownEnums g).map (·.id)).Nodup := hids.sublist (List.filter_sublist.map _)
    refine List.Pairwise.map _ (fun _ _ => id) ?_
    refine (List.pairwise_map.1 hsub).imp_of_mem fun he hf hne hname => ?_
    exact hne (h.id_eq_of_known he (hknown _ hf) hname)
  · intro hapart
    let new := g.enums.filter fun e => !(p.enumNamed? e.name).isSome
    have hperm : (p.knownEnums g ++ new).Perm g.enums := List.filter_append_perm _ _
    have hnew : new = g.enums.filter fun e => (p.enumNamed? e.name).isNone :=
      List.filter_congr fun e _ => Option.not_isSome _
    have hdistinct := h.distinct
    rw [newIds_eq, ← hnew] at hdistinct
    refine (hperm.map _).nodup_iff.1 ?_
    rw [List.map_append]
    refine List.nodup_append.2 ⟨?_, (List.nodup_append.1 hdistinct).2.1, ?_⟩
    · refine List.Pairwise.map _ (fun _ _ => id) ?_
      refine (List.pairwise_map.1 hapart).imp_of_mem fun he hf hne hid => ?_
      exact hne (h.lower_eq_of_id_eq hp (hknown _ he) (hknown _ hf) hid)
    · -- what has the id of a known enumeration has its name, and so is known itself
      rintro _ hid _ hid' rfl
      obtain ⟨e, he, rfl⟩ := List.mem_map.1 hid
      obtain ⟨f, hf, hef⟩ := List.mem_map.1 hid'
      obtain ⟨hf, hfnew⟩ := List.mem_filter.1 hf
      obtain ⟨he, heknown⟩ := List.mem_filter.1 he
      have hname := h.lower_eq_of_id_eq hp hf he hef
      unfold enumNamed? at heknown hfnew
      rw [hname, heknown] at hfnew
      cases hfnew

/-- **All ids** are different exactly if known names are told apart. -/
theorem ids_nodup_iff (hp : p.ids.Nodup) (htables : (g.tables.map (·.id)).Nodup) :
    g.ids.Nodup ↔ p.KnownApart g := by
  rw [← h.enumIds_nodup_iff hp]
  refine ⟨fun hall => (List.nodup_append.1 hall).2.1, fun henums => ?_⟩
  refine List.nodup_append.2 ⟨htables, henums, ?_⟩
  rintro _ hid _ hid' rfl
  obtain ⟨t, ht, rfl⟩ := List.mem_map.1 hid
  obtain ⟨e, he, hte⟩ := List.mem_map.1 hid'
  exact h.apart hp ht he hte.symm

end Graph.KeepsIdentity

/-! ## All ids -/

namespace Recovery

open Draft Sql

theorem tableIds_nodup (previous : Option Graph) (hp : (previous.getD {}).ids.Nodup) :
    ∀ g ∈ previous, (g.tables.map (·.id)).Nodup := by
  intro g hg
  rw [Option.mem_def.1 hg] at hp
  exact (List.nodup_append.1 hp).1

/-- **Ids stay different**, those of tables and of enumerations together, exactly if no two
enumerations of the reading take the identity of the same one of the graph before. -/
theorem recover_ids_nodup_iff {text : String} {previous : Option Graph} {o : Outcome}
    (hp : ∀ p ∈ previous, p.ids.Nodup) (h : recover text previous = .ok o) :
    o.graph.ids.Nodup ↔ (previous.getD {}).KnownApart o.graph := by
  have hids : (previous.getD {}).ids.Nodup := by
    cases previous with
    | none => exact List.nodup_nil
    | some p => exact hp p rfl
  obtain ⟨-, rfl⟩ := recover_eq_ok_iff.1 h
  obtain ⟨hc, -⟩ := complete_links previous (Script.ofText text).statements
  have hkept := keepsIdentity_links previous (Script.ofText text).statements
  exact (hkept _).ids_nodup_iff hids (hc.identified (tableIds_nodup previous hids)).ids

set_option maxRecDepth 2000 in
/-- A table and an enumeration that were there before, and a new table whose slug is taken. -/
theorem recover_ids_nodup_iff_orders :
    ∃ o, recover "CREATE TYPE State AS ENUM ('open');
        CREATE TABLE users (id INT);
        CREATE TABLE orders (id INT, state state);"
      (some
        { tables := [{ id := "table-orders", name := "USERS" }]
          enums := [{ id := "enum-1", name := "STATE" }] }) = .ok o ∧
      Graph.ids { tables := [{ id := "table-orders", name := "USERS" }]
                  enums := [{ id := "enum-1", name := "STATE" }] } = ["table-orders", "enum-1"] ∧
      (o.graph.ids.Nodup ↔ Graph.KnownApart
        { tables := [{ id := "table-orders", name := "USERS" }]
          enums := [{ id := "enum-1", name := "STATE" }] } o.graph) ∧
      o.graph.ids = ["table-orders", "table-orders-2", "enum-1"] := by
  let text := "CREATE TYPE State AS ENUM ('open');
        CREATE TABLE users (id INT);
        CREATE TABLE orders (id INT, state state);"
  let p : Graph :=
    { tables := [{ id := "table-orders", name := "USERS" }]
      enums := [{ id := "enum-1", name := "STATE" }] }
  obtain ⟨statements, hread, hne, hids⟩ : ∃ statements,
      (Script.ofText text).statements = statements ∧
      (ofStatements (some p) statements).links.1.tables ≠ [] ∧
      (ofStatements (some p) statements).links.1.tables.map (·.id) ++
        (ofStatements (some p) statements).links.1.enums.map (·.id) =
          ["table-orders", "table-orders-2", "enum-1"] :=
    ⟨_, Script.statements_ofList _, by decide +kernel⟩
  have h := recover_of_statements hread (some p) hne
  have hp : ∀ q, some p = some q → q.ids.Nodup := by
    rintro q hq
    obtain rfl := Option.some.inj hq
    decide
  have hiff := recover_ids_nodup_iff hp h
  exact ⟨_, h, rfl, hiff, hids⟩

/-- **One id twice**: names that differ in the case of a letter outside of ASCII are two names for
a reading, and one name for the graph before. -/
theorem recover_ids_shared :
    ¬ ∀ (text : String) (p : Graph) (o : Outcome), p.ids.Nodup →
      (p.tables.map fun t => Text.lower t.name).Nodup →
      (p.enums.map fun e => Text.lower e.name).Nodup →
      recover text (some p) = .ok o → o.graph.ids.Nodup := by
  let text := "CREATE TYPE É AS ENUM ('a');
CREATE TYPE é AS ENUM ('b');
CREATE TABLE t (id INT);"
  let p : Graph := { tables := [], enums := [{ id := "enum-1", name := "é" }] }
  obtain ⟨statements, hread, hne, hids⟩ : ∃ statements,
      (Script.ofText text).statements = statements ∧
      (ofStatements (some p) statements).links.1.tables ≠ [] ∧
      (ofStatements (some p) statements).links.1.tables.map (·.id) ++
        (ofStatements (some p) statements).links.1.enums.map (·.id) =
          ["table-t", "enum-1", "enum-1"] :=
    ⟨_, Script.statements_ofList _, by decide +kernel⟩
  intro hall
  have hnodup : Graph.ids _ |>.Nodup :=
    hall text p _ (by decide) (by decide) (by decide) (recover_of_statements hread (some p) hne)
  have hshared : ["table-t", "enum-1", "enum-1"].Nodup := hids ▸ hnodup
  exact absurd hshared (by decide)

end Recovery

end DdlGraph
