import DdlGraph.Proofs.NamedEdges
import DdlGraph.Proofs.SheetPhases

/-!
# The order of statements

Statements that do not stand in each other's way give the same schema in every order: the same
enumerations and tables, the same columns in each table, with the same constraints and foreign keys,
and the same edges. What depends on the order are ids, places, the order of tables, of edges and of
the constraints of a column. All of it is shown on sheets, where nothing else depends on it.

* `indexSorted_comm`, `keyed_comm`: indexes and foreign keys that can change places;
* `reordered_ofStatements`, `Reordered.links`: the sheets of statements in another order, and their
  links;
* `nodup_links`: no two links join the same, so that each of them is an edge;
* `sameSchema_of_perm`: the schema of statements in another order.
-/

namespace DdlGraph

/-! ## Look-ups in another order -/

section
variable {α β : Type}

/-- What is the only one of its key is found in every order. -/
theorem find?_eq_of_perm {l l' : List α} (h : l.Perm l') {key : α → β} (hn : (l.map key).Nodup)
    {p : α → Bool} (hp : ∀ a ∈ l, ∀ b ∈ l, p a = true → p b = true → key a = key b) :
    l.find? p = l'.find? p := by
  cases hfind : l'.find? p with
  | none =>
    exact List.find?_eq_none.2 fun a ha => List.find?_eq_none.1 hfind a (h.mem_iff.1 ha)
  | some a =>
    have ha := h.mem_iff.2 (List.mem_of_find?_eq_some hfind)
    have hpa := List.find?_some hfind
    exact find?_of_nodup hn ha hpa fun b hb hpb => hp b hb a ha hpb hpa

/-- Updates of different elements, or ones that do not see each other, can change places. -/
theorem updateFirst_comm {p q : α → Bool} {f g : α → α} (hp : ∀ a, p (g a) = p a)
    (hq : ∀ a, q (f a) = q a) (hfg : ∀ a, p a = true → q a = true → f (g a) = g (f a))
    (as : List α) :
    updateFirst p f (updateFirst q g as) = updateFirst q g (updateFirst p f as) := by
  induction as with
  | nil => rfl
  | cons a as ih =>
    cases hpa : p a <;> cases hqa : q a <;> simp [updateFirst, hp, hq, hpa, hqa, ih]
    exact hfg a hpa hqa

/-- An update under a map. -/
theorem map_updateFirst_comm {p : α → Bool} {q : β → Bool} {f : α → α} {u : β → β} {g : α → β}
    (hp : ∀ a, q (g a) = p a) (hf : ∀ a, g (f a) = u (g a)) (as : List α) :
    (updateFirst p f as).map g = updateFirst q u (as.map g) := by
  induction as with
  | nil => rfl
  | cons a as ih => cases hpa : p a <;> simp [updateFirst, hp, hpa, hf, ih]

end

/-! ## Constraints as sets -/

/-- All constraints, in one order. -/
def Constraint.all : List Constraint :=
  [.primary, .unique, .notNull, .index]

/-- A column with the constraints that it holds in one order. -/
def Column.sorted (c : Column) : Column :=
  { c with constraints := Constraint.all.filter c.has }

/-- A table with the constraints of its columns in one order. -/
def Table.sorted (t : Table) : Table :=
  t.mapColumns Column.sorted

theorem Constraint.mem_all (k : Constraint) : k ∈ Constraint.all := by
  cases k <;> decide

theorem Column.has_sorted (c : Column) (k : Constraint) : c.sorted.has k = c.has k := by
  have hmem : k ∈ c.sorted.constraints ↔ c.has k = true := by
    unfold Column.sorted
    rw [List.mem_filter]
    exact and_iff_right k.mem_all
  rw [Bool.eq_iff_iff, ← hmem]
  exact List.contains_iff_mem

/-- A column with one constraint more, in one order. -/
def Column.sortedWith (k : Constraint) (c : Column) : Column :=
  { c with constraints := Constraint.all.filter fun j => j == k || c.has j }

theorem Column.sorted_addConstraint (c : Column) (k : Constraint) :
    (c.addConstraint k).sorted = c.sorted.sortedWith k := by
  have hhas : (c.addConstraint k).has = fun j => j == k || c.sorted.has j := by
    funext j
    rw [Column.has_sorted, Bool.eq_iff_iff]
    unfold Column.has
    simp only [List.contains_iff_mem, Column.mem_addConstraint, Bool.or_eq_true, beq_iff_eq]
  have hrest : (c.addConstraint k).sorted =
      { c with constraints := Constraint.all.filter (c.addConstraint k).has } := by
    unfold Column.sorted Column.addConstraint
    split <;> rfl
  rw [hrest, hhas]
  rfl

theorem Column.sortedWith_comm (c : Column) (j k : Constraint) :
    (c.sortedWith k).sortedWith j = (c.sortedWith j).sortedWith k := by
  have hhas : ∀ (c : Column) (k i : Constraint), (c.sortedWith k).has i = (i == k || c.has i) := by
    intro c k i
    have hmem : i ∈ (c.sortedWith k).constraints ↔ (i == k || c.has i) = true := by
      unfold Column.sortedWith
      rw [List.mem_filter]
      exact and_iff_right i.mem_all
    rw [Bool.eq_iff_iff, ← hmem]
    exact List.contains_iff_mem
  have hrest : ∀ j k, (c.sortedWith k).sortedWith j =
      { c with constraints := Constraint.all.filter fun i => i == j || (i == k || c.has i) } := by
    intro j k
    simp only [← hhas c k]
    rfl
  rw [hrest, hrest]
  simp only [Bool.or_left_comm]

namespace Recovery

open Sql

theorem looks_sorted : Sheet.Looks Column.sorted where
  titles _ := rfl
  unique c := by
    unfold Column.isUnique Column.isPrimary
    rw [Column.has_sorted, Column.has_sorted]

/-- The constraint of an index, in a table with sorted constraints. -/
def constrainSorted (k : Constraint) (t : Table) (title : String) : Table :=
  match t.findColumn? title with
  | some c => t.updateColumn c.title (·.sortedWith k)
  | none => t

theorem sorted_constrain (k : Constraint) (t : Table) (title : String) :
    (Draft.constrain k t title).sorted = constrainSorted k t.sorted title := by
  have hfind : t.sorted.findColumn? title = (t.findColumn? title).map Column.sorted :=
    Table.findColumn?_mapColumns looks_sorted.titles title
  unfold Draft.constrain constrainSorted
  rw [hfind]
  cases t.findColumn? title with
  | none => rfl
  | some c =>
    unfold Table.sorted Table.mapColumns Table.updateColumn
    dsimp only [Option.map_some]
    congr 1
    refine map_updateFirst_comm (fun _ => ?_) (fun c => ?_) t.columns
    · rfl
    · exact c.sorted_addConstraint k

/-- Constraints of indexes can change places. -/
theorem constrainSorted_comm (j k : Constraint) (t : Table) (a b : String) :
    constrainSorted j (constrainSorted k t b) a = constrainSorted k (constrainSorted j t a) b := by
  have htitle : ∀ (k : Constraint) (t : Table) (a b : String),
      ((constrainSorted k t b).findColumn? a).map (·.title) = (t.findColumn? a).map (·.title) := by
    intro k t a b
    refine map_findColumn?_congr ?_ a
    unfold constrainSorted
    split
    · refine map_updateFirst (fun _ => ?_) _
      rfl
    · rfl
  have hstep : ∀ (k : Constraint) (t : Table) (a : String), constrainSorted k t a =
      ((t.findColumn? a).map (·.title)).elim t fun title =>
        t.updateColumn title (·.sortedWith k) := by
    intro k t a
    unfold constrainSorted
    cases t.findColumn? a <;> rfl
  rw [hstep j, htitle, hstep k (constrainSorted j t a), htitle, hstep k t, hstep j t]
  cases (t.findColumn? a).map (·.title) with
  | none => rfl
  | some title =>
    cases (t.findColumn? b).map (·.title) with
    | none => rfl
    | some title' =>
      simp only [Option.elim_some, Table.updateColumn]
      congr 1
      refine updateFirst_comm (fun _ => ?_) (fun _ => ?_) (fun c _ _ => ?_) _
      · rfl
      · rfl
      · exact c.sortedWith_comm j k

/-- An index, in a table with sorted constraints. -/
def indexSorted (t : Table) (x : String × List String × Bool) : Table :=
  match Sheet.indexIn? t.name x with
  | some (k, column) => constrainSorted k t column
  | none => t

theorem sorted_foldl_indexTable (indexes : List (String × List String × Bool)) (t : Table) :
    (indexes.foldl Sheet.indexTable t).sorted = indexes.foldl indexSorted t.sorted := by
  induction indexes generalizing t with
  | nil => rfl
  | cons x indexes ih =>
    have hstep : (Sheet.indexTable t x).sorted = indexSorted t.sorted x := by
      have hname : t.sorted.name = t.name := rfl
      unfold Sheet.indexTable indexSorted
      rw [hname]
      cases Sheet.indexIn? t.name x with
      | some i => exact sorted_constrain i.1 t i.2
      | none => rfl
    rw [List.foldl_cons, List.foldl_cons, ih, hstep]

/-- Indexes can change places. -/
theorem indexSorted_comm (x y : String × List String × Bool) (t : Table) :
    indexSorted (indexSorted t x) y = indexSorted (indexSorted t y) x := by
  have hname : ∀ x, (indexSorted t x).name = t.name := by
    intro x
    unfold indexSorted constrainSorted
    split
    · split <;> rfl
    · rfl
  have hstep : ∀ x y, indexSorted (indexSorted t x) y = match Sheet.indexIn? t.name y with
      | some (k, column) => constrainSorted k (indexSorted t x) column
      | none => indexSorted t x := by
    intro x y
    rw [← hname x]
    rfl
  rw [hstep, hstep]
  unfold indexSorted
  cases Sheet.indexIn? t.name x with
  | none => rfl
  | some i =>
    cases Sheet.indexIn? t.name y with
    | none => rfl
    | some j => exact constrainSorted_comm j.1 i.1 t j.2 i.2

/-! ## Foreign keys in another order -/

theorem sorted_keyed (s : Sheet) (t : Table) (k : NamedKey) :
    (s.keyed t k).sorted = s.keyed t.sorted k := by
  have hname : t.sorted.name = t.name := rfl
  unfold Sheet.keyed
  rw [hname]
  split
  · unfold Table.sorted Table.mapColumns Table.updateColumn
    dsimp only
    congr 1
    refine map_updateFirst_comm (fun _ => ?_) (fun _ => ?_) t.columns
    · rfl
    · rfl
  · rfl

theorem sorted_foldl_keyed (s : Sheet) (keys : List NamedKey) (t : Table) :
    (keys.foldl s.keyed t).sorted = keys.foldl s.keyed t.sorted := by
  induction keys generalizing t with
  | nil => rfl
  | cons k keys ih => rw [List.foldl_cons, List.foldl_cons, ih, sorted_keyed]

/-- Foreign keys of different columns can change places. -/
theorem keyed_comm (s : Sheet) {k m : NamedKey}
    (h : (Text.lower k.table, k.column) ≠ (Text.lower m.table, m.column)) (t : Table) :
    s.keyed (s.keyed t k) m = s.keyed (s.keyed t m) k := by
  have hset : ∀ (k : NamedKey) (t' : Table), t'.name = t.name →
      Text.lower t.name = Text.lower k.table → s.keyed t' k =
        t'.updateColumn k.column fun c => { c with foreignKey := some (s.keyIn k) } :=
    fun k t' ht' hk => if_pos (ht' ▸ hk)
  have hother : ∀ (k : NamedKey) (t' : Table), t'.name = t.name →
      ¬Text.lower t.name = Text.lower k.table → s.keyed t' k = t' :=
    fun k t' ht' hk => if_neg (ht' ▸ hk)
  have hname := s.name_keyed t
  by_cases hk : Text.lower t.name = Text.lower k.table
  · by_cases hm : Text.lower t.name = Text.lower m.table
    · have hcolumn : k.column ≠ m.column := fun hc => h (by rw [← hk, ← hm, hc])
      rw [hset m _ (hname k) hm, hset k t rfl hk, hset k _ (hname m) hk, hset m t rfl hm]
      unfold Table.updateColumn
      dsimp only
      congr 1
      refine updateFirst_comm (fun _ => ?_) (fun _ => ?_) (fun c hc hc' => ?_) t.columns
      · rfl
      · rfl
      · exact absurd ((eq_of_beq hc').symm.trans (eq_of_beq hc)) hcolumn
    · rw [hother m _ (hname k) hm, hother m t rfl hm]
  · rw [hother k t rfl hk, hother k _ (hname m) hk]

/-! ## Enumerations in another order -/

section
variable {enums enums' : List Enumeration} (h : enums.Perm enums')
  (hn : (enums.map fun e => Text.foldAscii e.name).Nodup)
include h hn

theorem enumByName?_of_perm (name : String) : enumByName? enums name = enumByName? enums' name := by
  refine find?_eq_of_perm h hn fun a _ b _ ha hb => ?_
  exact (sameAscii_iff.1 ha).trans (sameAscii_iff.1 hb).symm

theorem typeOf_of_perm (c : ColumnDef) : typeOf enums c = typeOf enums' c := by
  unfold typeOf Draft.knownEnum?
  simp only [enumByName?_of_perm h hn]

theorem usesOfTable_of_perm (x : TableDef) : usesOfTable enums x = usesOfTable enums' x := by
  unfold usesOfTable columnUses typedBy?
  rw [Draft.newColumns_congr (typeOf_of_perm h hn) x.columns rfl]
  simp only [funext (enumByName?_of_perm h hn)]

end

/-! ## Sheets in another order -/

/-- **Two sheets with the same content** in another order. -/
structure Reordered (s s' : Sheet) : Prop where
  names : (s.tables.map fun t => Text.lower t.name).Nodup
  enums : s.enums.Perm s'.enums
  tables : (s.tables.map Table.sorted).Perm (s'.tables.map Table.sorted)
  keys : s.keys.Perm s'.keys
  uses : s.uses.Perm s'.uses

theorem lower_names_sorted (tables : List Table) :
    (tables.map fun t => Text.lower t.name) =
      (tables.map Table.sorted).map fun t => Text.lower t.name := by
  rw [List.map_map]
  rfl

theorem resembles_of_perm {s s' : Sheet} (hn : (s.tables.map fun t => Text.lower t.name).Nodup)
    (h : (s.tables.map Table.sorted).Perm (s'.tables.map Table.sorted)) :
    Sheet.Resembles Column.sorted s s' := by
  have hfind : ∀ (s : Sheet) (name : String), (s.table? name).map (·.mapColumns Column.sorted) =
      (s.tables.map Table.sorted).find? fun t => Text.lower t.name == Text.lower name := by
    intro s name
    unfold Sheet.table?
    rw [List.find?_map]
    rfl
  intro name
  rw [hfind, hfind]
  rw [lower_names_sorted] at hn
  exact find?_eq_of_perm h hn fun a _ b _ ha hb => (eq_of_beq ha).trans (eq_of_beq hb).symm

/-- **Statements in another order** give a sheet in another order. -/
theorem reordered_ofStatements {statements statements' : List Statement}
    (h : statements.Perm statements')
    (henums : ((statements.filterMap Draft.declared?).map fun x => Text.foldAscii x.1).Nodup)
    (htables : ((statements.filterMap Draft.defined?).map fun x => Text.lower x.name).Nodup) :
    Reordered (Sheet.ofStatements statements) (Sheet.ofStatements statements') := by
  have hdeclared := h.filterMap Draft.declared?
  have hdefined := h.filterMap Draft.defined?
  have hindexed := h.filterMap Draft.indexed?
  have haltered := h.filterMap Draft.altered?
  obtain ⟨he, ht, hk, hu⟩ := Sheet.ofStatements_parts henums htables
  obtain ⟨he', ht', hk', hu'⟩ := Sheet.ofStatements_parts
    ((hdeclared.map _).nodup_iff.1 henums) ((hdefined.map _).nodup_iff.1 htables)
  have hperm := hdeclared.map enumOf
  have hfolded : (((statements.filterMap Draft.declared?).map enumOf).map
      fun e => Text.foldAscii e.name).Nodup := by
    rw [List.map_map]
    simp only [Function.comp_def, enumOf_name]
    exact henums
  have htypes := typeOf_of_perm hperm hfolded
  have hnames : ((Sheet.ofStatements statements).tables.map fun t => Text.lower t.name).Nodup := by
    rw [ht, List.map_map]
    simp only [Function.comp_def, Sheet.name_foldl_indexTable, name_tableOf]
    exact htables
  have hsorted : ((Sheet.ofStatements statements).tables.map Table.sorted).Perm
      ((Sheet.ofStatements statements').tables.map Table.sorted) := by
    have hindexes : ∀ t, (statements.filterMap Draft.indexed?).foldl indexSorted t =
        (statements'.filterMap Draft.indexed?).foldl indexSorted t := fun t =>
      hindexed.foldl_eq' (fun x _ y _ t => indexSorted_comm x y t) t
    rw [ht, ht', List.map_map, List.map_map]
    simp only [Function.comp_def, sorted_foldl_indexTable, hindexes, Draft.tableOf_congr htypes]
    exact hdefined.map _
  have hresembles := resembles_of_perm hnames hsorted
  refine ⟨hnames, ?_, hsorted, ?_, ?_⟩
  · rw [he, he']
    exact hperm
  · rw [hk, hk']
    simp only [funext (Draft.keysOfTable_congr htypes),
      funext (hresembles.keysOfAlter looks_sorted)]
    exact (hdefined.flatMap_right _).append (haltered.flatMap_right _)
  · rw [hu, hu']
    simp only [funext (usesOfTable_of_perm hperm hfolded)]
    exact hdefined.flatMap_right _

/-- **Foreign keys of different columns** give the same links in another order, and set the same
in the columns. -/
theorem Reordered.links {s s' : Sheet} (h : Reordered s s')
    (hsources : (s.keys.map fun k => (Text.lower k.table, k.column)).Nodup) :
    s.links.1.enums.Perm s'.links.1.enums ∧
      (s.links.1.tables.map Table.sorted).Perm (s'.links.1.tables.map Table.sorted) ∧
        s.links.2.Perm s'.links.2 := by
  have hnames' : (s'.tables.map fun t => Text.lower t.name).Nodup := by
    have hnames := h.names
    rw [lower_names_sorted] at hnames ⊢
    exact (h.tables.map _).nodup_iff.1 hnames
  have hresembles := resembles_of_perm h.names h.tables
  obtain ⟨he, ht, hl⟩ := Sheet.links_eq h.names
  obtain ⟨he', ht', hl'⟩ := Sheet.links_eq hnames'
  have hkeyed : s'.keyed = s.keyed := by
    funext t k
    unfold Sheet.keyed
    rw [hresembles.keyIn looks_sorted]
  have hkeys : ∀ t, s.keys.foldl s.keyed t = s'.keys.foldl s.keyed t := by
    intro t
    refine h.keys.foldl_eq' (fun k hk m hm t => ?_) t
    by_cases hkm : k = m
    · rw [hkm]
    · exact keyed_comm s (fun he => hkm (List.inj_on_of_nodup_map hsources hk hm he)) t
  refine ⟨?_, ?_, ?_⟩
  · rw [he, he']
    exact h.enums
  · rw [ht, ht', hkeyed, List.map_map, List.map_map]
    have hfinal := h.tables.map fun t => s'.keys.foldl s.keyed t
    rw [List.map_map, List.map_map] at hfinal
    simpa only [Function.comp_def, sorted_foldl_keyed, hkeys] using hfinal
  · rw [hl, hl', funext (hresembles.linkIn? looks_sorted)]
    exact (h.keys.filterMap _).append (h.uses.map _)

/-! ## Links that join different columns -/

/-- A part of the images, if the images are those of what was there. -/
theorem sublist_map_filterMap {α β γ : Type} {f : α → Option β} {g : β → γ} {u : α → γ}
    (h : ∀ a b, f a = some b → g b = u a) (as : List α) :
    ((as.filterMap f).map g).Sublist (as.map u) := by
  induction as with
  | nil => exact .slnil
  | cons a as ih =>
    rw [List.filterMap_cons, List.map_cons]
    cases ha : f a with
    | none => exact ih.cons _
    | some b =>
      rw [List.map_cons, h a b ha]
      exact ih.cons_cons _

/-- **Links of a sheet** join different columns, if no column has two foreign keys. -/
theorem nodup_links {s : Sheet}
    (hkeys : (s.keys.map fun k => (Text.lower k.table, k.column)).Nodup)
    (huses : (s.uses.map fun u => (u.table, u.column)).Nodup) :
    ((s.keys.filterMap s.linkIn? ++ s.uses.map Sheet.enumLinkOf).map
      fun n => (n.ends, n.enumLink)).Nodup := by
  have hlink : ∀ k l, s.linkIn? k = some l →
      l.source = k.table ∧ l.sourceColumn = k.column ∧ l.enumLink = false := by
    intro k l hl
    obtain ⟨c, -, hl⟩ := Option.bind_eq_some_iff.1 hl
    obtain ⟨t, -, rfl⟩ := Option.map_eq_some_iff.1 hl
    exact ⟨rfl, rfl, rfl⟩
  rw [List.map_append]
  refine List.nodup_append.2 ⟨?_, ?_, ?_⟩
  · refine List.Nodup.of_map (fun x => (Text.lower x.1.1, x.1.2.1)) ?_
    rw [List.map_map]
    refine (sublist_map_filterMap (fun k l hl => ?_) s.keys).nodup hkeys
    obtain ⟨hs, hc, -⟩ := hlink k l hl
    exact Prod.ext (congrArg Text.lower hs) hc
  · refine List.Nodup.of_map (fun x => (x.1.2.2.1, x.1.2.2.2)) ?_
    rw [List.map_map, List.map_map]
    exact huses
  · intro x hx y hy hxy
    obtain ⟨l, hl, rfl⟩ := List.mem_map.1 hx
    obtain ⟨m, hm, rfl⟩ := List.mem_map.1 hy
    obtain ⟨k, -, hk⟩ := List.mem_filterMap.1 hl
    obtain ⟨u, -, rfl⟩ := List.mem_map.1 hm
    have hkind := (hlink k l hk).2.2
    rw [show l.enumLink = true from congrArg Prod.snd hxy] at hkind
    cases hkind

/-- Titles of new columns are different. -/
theorem nodup_newColumns (enums : List Enumeration) {x : TableDef}
    (hx : ∀ c ∈ x.columns, c.inlineValues = none) :
    ((newColumns enums { id := "", name := x.name } x.columns).map (·.title)).Nodup := by
  have hempty : Table.Ok { id := "", name := x.name } := ⟨List.nodup_nil, fun _ h => nomatch h⟩
  have hok := Draft.ok_foldl_addColumn {} x.columns hempty { pool := {}, enums }
  rw [Draft.foldl_addColumn_unlisted {} hx] at hok
  have htitles := hok.titles
  unfold Table.foldedTitles at htitles
  refine List.Nodup.of_map Text.foldAscii ?_
  rw [List.map_map]
  exact htitles

/-- **Uses of enumerations** are in different columns. -/
theorem nodup_uses (enums : List Enumeration) {definitions : List TableDef}
    (hn : (definitions.map fun x => Text.lower x.name).Nodup)
    (hx : ∀ x ∈ definitions, ∀ c ∈ x.columns, c.inlineValues = none) :
    ((definitions.flatMap (usesOfTable enums)).map fun u => (u.table, u.column)).Nodup := by
  have htable : ∀ x, ∀ y ∈ (usesOfTable enums x).map fun u => (u.table, u.column), y.1 = x.name := by
    intro x y hy
    obtain ⟨u, hu, rfl⟩ := List.mem_map.1 hy
    obtain ⟨c, -, hc⟩ := List.mem_filterMap.1 hu
    obtain ⟨e, -, rfl⟩ := Option.map_eq_some_iff.1 hc
    rfl
  rw [List.map_flatMap, List.nodup_flatMap]
  constructor
  · intro x hm
    refine List.Sublist.nodup ?_ ((nodup_newColumns enums (hx x hm)).map
      (f := fun title => (x.name, title)) fun _ _ he => congrArg Prod.snd he)
    rw [List.map_map]
    refine sublist_map_filterMap (fun c u hu => ?_) _
    obtain ⟨e, -, rfl⟩ := Option.map_eq_some_iff.1 hu
    rfl
  · refine (List.pairwise_map.1 hn).imp fun {x y} hxy => ?_
    intro z hz hz'
    exact hxy (congrArg Text.lower ((htable x z hz).symm.trans (htable y z hz')))

end Recovery

/-! ## Schemas -/

/-- **The same schema**: enumerations and tables by their names, with constraints as sets, and edges
by the names of what they join. -/
structure Graph.SameSchema (g g' : Graph) : Prop where
  enums : (g.enums.map fun e => (e.name, e.values)).Perm (g'.enums.map fun e => (e.name, e.values))
  tables : (g.tables.map fun t => (t.name, t.columns.map Column.sorted)).Perm
    (g'.tables.map fun t => (t.name, t.columns.map Column.sorted))
  edges : (g.edges.map (Edge.named g)).Perm (g'.edges.map (Edge.named g'))

namespace Recovery

open Sql

/-- The graph of statements, without a graph before. -/
def graphOf (statements : List Statement) : Graph :=
  let r := (Draft.ofStatements none statements).links
  (Outcome.ofDraft none r.1 r.2).graph

/-- **Statements of different names**: no table and no enumeration is defined twice, no bar is in
the names that edges are known by, and no column lists its values. -/
structure Distinct (statements : List Statement) : Prop where
  tables : ((statements.filterMap Draft.defined?).map fun x => Text.lower x.name).Nodup
  enums : ((statements.filterMap Draft.declared?).map fun x => Text.foldAscii x.1).Nodup
  columnBars : ∀ x ∈ statements.filterMap Draft.defined?, ∀ c ∈ x.columns, '|' ∉ c.name.toList
  enumBars : ∀ x ∈ statements.filterMap Draft.declared?, '|' ∉ x.1.toList
  unlisted : Unlisted statements

/-- **Statements that do not stand in each other's way**: their names are different, and no column
is the source of two foreign keys, wherever they are stated. -/
structure Independent (statements : List Statement) : Prop extends Distinct statements where
  sources : ((Draft.ofStatements none statements).pending.map fun p => (p.tableId, p.column)).Nodup

theorem mem_defined_of_mem_firstDefinitions {statements : List Statement} {x : TableDef}
    (h : x ∈ Draft.firstDefinitions statements) : x ∈ statements.filterMap Draft.defined? := by
  obtain ⟨y, hy, rfl⟩ := List.mem_map.1 h
  obtain ⟨statement, hm, he⟩ := List.mem_filterMap.1 (Ddl.mem_of_mem_firstOfEach hy)
  refine List.mem_filterMap.2 ⟨statement, hm, ?_⟩
  cases statement with
  | createTable definition =>
    obtain rfl := Option.some.inj he
    rfl
  | _ => cases he

/-- No two keys of the sheet start at the same column. -/
theorem Independent.keys {statements : List Statement} (h : Independent statements) :
    ((Sheet.ofStatements statements).keys.map fun k => (Text.lower k.table, k.column)).Nodup := by
  have hs := Draft.says_ofStatements (tableIds_nodup none List.nodup_nil) h.unlisted
  have hsources := h.sources
  have hids : (Draft.ofStatements none statements).pending.map (fun p => (p.tableId, p.column)) =
      ((Sheet.ofStatements statements).keys.map fun k => (Text.lower k.table, k.column)).map
        fun x => (((Draft.ofStatements none statements).tableIds.lookup x.1).getD "", x.2) := by
    rw [List.map_map, ← List.forall₂_eq_eq_eq, List.forall₂_map_left_iff, List.forall₂_map_right_iff]
    refine hs.keys.flip.imp ?_
    rintro p k ⟨id, ⟨t, ht, hname, rfl⟩, rfl⟩
    have hid := hs.named.tableId?_eq ht (congrArg Text.lower hname.symm)
    unfold Draft.tableId? at hid
    dsimp only [Function.comp_apply]
    rw [hid]
    rfl
  rw [hids] at hsources
  exact hsources.of_map _

section
variable {statements statements' : List Statement} (h : Distinct statements)
include h

theorem Distinct.perm (hp : statements.Perm statements') : Distinct statements' where
  tables := ((hp.filterMap Draft.defined?).map _).nodup_iff.1 h.tables
  enums := ((hp.filterMap Draft.declared?).map _).nodup_iff.1 h.enums
  columnBars x hx := h.columnBars x ((hp.filterMap Draft.defined?).mem_iff.2 hx)
  enumBars x hx := h.enumBars x ((hp.filterMap Draft.declared?).mem_iff.2 hx)
  unlisted x hx := h.unlisted x ((hp.filterMap Draft.defined?).mem_iff.2 hx)

/-- Names of tables on the sheet are different. -/
theorem Distinct.names :
    ((Sheet.ofStatements statements).tables.map fun t => Text.lower t.name).Nodup :=
  (reordered_ofStatements (.refl statements) h.enums h.tables).names

/-- **No bars** are in the graph of the statements. -/
theorem Distinct.noBars : Graph.NoBars
    { tables := (Draft.ofStatements none statements).links.1.tables
      enums := (Draft.ofStatements none statements).links.1.enums } := by
  have hkept := keepsIdentity_links none statements []
  obtain ⟨htables, henums⟩ := Graph.KeepsIdentity.ids_noBars hkept
  obtain ⟨hc, -⟩ := Draft.complete_links none statements
  obtain ⟨hs, -⟩ := Draft.says_links (tableIds_nodup none List.nodup_nil) h.unlisted
  refine ⟨fun t ht => ⟨htables t ht, fun c hcm => ?_⟩, fun e he => ⟨henums e he, ?_⟩⟩
  · obtain ⟨x, hx, hrealizes⟩ := exists_mem_of_forall₂ hc.realizes ht
    obtain ⟨y, hy, hcolumn⟩ := exists_mem_of_forall₂ hrealizes.columns hcm
    have hdefined := mem_defined_of_mem_firstDefinitions hx
    have hname := h.columnBars x hdefined y hy
    rcases hcolumn.title with htitle | ⟨n, -, htitle⟩
    · rw [htitle]
      exact hname
    · rw [htitle]
      simp only [String.toList_append, List.mem_append, not_or]
      exact ⟨⟨hname, by decide⟩, bar_not_mem_toString n⟩
  · obtain ⟨hlinks, -⟩ := Sheet.links_eq h.names
    obtain ⟨hdeclared, -⟩ := Sheet.ofStatements_parts h.enums h.tables
    have hm : e.bare ∈ (Sheet.ofStatements statements).links.1.enums :=
      hs.enums ▸ List.mem_map_of_mem he
    rw [hlinks, hdeclared] at hm
    obtain ⟨x, hx, hxe⟩ := List.mem_map.1 hm
    have hname : e.name = x.1 := (congrArg Enumeration.name hxe).symm.trans (enumOf_name x)
    exact hname ▸ h.enumBars x hx

/-- **Edges of the statements, by names**, are the links of their sheet. -/
theorem Distinct.edges (hkeys : ((Sheet.ofStatements statements).keys.map
    fun k => (Text.lower k.table, k.column)).Nodup) :
    (graphOf statements).edges.map (Edge.named (graphOf statements)) =
      (Sheet.ofStatements statements).links.2.map Link.namedEdge := by
  obtain ⟨-, hl⟩ := Draft.says_links (tableIds_nodup none List.nodup_nil) h.unlisted
  have hids := (keepsIdentity_links none statements []).ids_nodup
  have hd := names_links none List.nodup_nil statements
  have hplain := Draft.plain_of_mem_links none statements h.noBars
  obtain ⟨-, -, -, huses⟩ := Sheet.ofStatements_parts h.enums h.tables
  obtain ⟨-, -, hlinks⟩ := Sheet.links_eq h.names
  refine Draft.named_reconcileEdges hd hl (List.nodup_append.1 hids).2.1 hplain ?_ _
  rw [hlinks]
  refine nodup_links hkeys ?_
  rw [huses]
  exact nodup_uses _ h.tables h.unlisted

end

/-- **The order of statements** does not matter to the schema. -/
theorem sameSchema_of_perm {statements statements' : List Statement} (h : Independent statements)
    (hp : statements.Perm statements') : (graphOf statements).SameSchema (graphOf statements') := by
  have hd := h.toDistinct
  have hd' := hd.perm hp
  have hreordered := reordered_ofStatements hp hd.enums hd.tables
  have hkeys' := (hreordered.keys.map _).nodup_iff.1 h.keys
  obtain ⟨henums, htables, hlinks⟩ := hreordered.links h.keys
  obtain ⟨hs, -⟩ := Draft.says_links (tableIds_nodup none List.nodup_nil) hd.unlisted
  obtain ⟨hs', -⟩ := Draft.says_links (tableIds_nodup none List.nodup_nil) hd'.unlisted
  refine ⟨?_, ?_, ?_⟩
  · have hvalues := henums.map fun e => (e.name, e.values)
    rw [← hs.enums, ← hs'.enums, List.map_map, List.map_map] at hvalues
    exact hvalues
  · have hcolumns := htables.map fun t => (t.name, t.columns)
    rw [← hs.tables, ← hs'.tables] at hcolumns
    simp only [List.map_map] at hcolumns
    exact hcolumns
  · rw [hd.edges h.keys, hd'.edges hkeys']
    exact hlinks.map _

/-- Tables after their indexes and foreign keys, and an enumeration after its column. -/
theorem sameSchema_of_perm_orders : ∃ statements : List Statement,
    (graphOf statements).SameSchema (graphOf statements.reverse) ∧
      (graphOf statements).tables.map (·.name) = ["users", "orders"] ∧
      (graphOf statements.reverse).tables.map (·.name) = ["orders", "users"] ∧
      (graphOf statements).edges.map (fun e => (e.source, e.target)) =
        [("table-orders", "table-users"), ("enum-state", "table-orders")] := by
  let statements : List Statement :=
    [.createType "state" ["open", "paid"],
      .createTable { name := "users", line := 2, columns := [{ name := "id", typeName := "INT" }] },
      .createTable { name := "orders", line := 3, columns :=
        [{ name := "state", typeName := "state" }, { name := "user", typeName := "INT" }] },
      .createIndex "orders" ["user"] false, .createIndex "orders" ["user"] true,
      .alterForeignKey "orders" ⟨["user"], ⟨"Users", ["ID"], some .cascade, none⟩⟩]
  obtain ⟨htables, henums, hcolumns, hbars, hunlisted, hsources⟩ :
      ((statements.filterMap Draft.defined?).map fun x => Text.lower x.name).Nodup ∧
      ((statements.filterMap Draft.declared?).map fun x => Text.foldAscii x.1).Nodup ∧
      (∀ x ∈ statements.filterMap Draft.defined?, ∀ c ∈ x.columns, '|' ∉ c.name.toList) ∧
      (∀ x ∈ statements.filterMap Draft.declared?, '|' ∉ x.1.toList) ∧ Unlisted statements ∧
      ((Draft.ofStatements none statements).pending.map fun p => (p.tableId, p.column)).Nodup := by
    decide +kernel
  have h : Independent statements :=
    ⟨⟨htables, henums, hcolumns, hbars, hunlisted⟩, hsources⟩
  refine ⟨statements, sameSchema_of_perm h statements.reverse_perm.symm, ?_⟩
  decide +kernel

end Recovery

end DdlGraph
