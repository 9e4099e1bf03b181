import DdlGraph.Proofs.NamedLinks

/-!
# The phases of a sheet, each as a whole

Statements whose names are all different do not wait for each other on a sheet: each phase is a map
over its statements or over the tables. What is found in a table on the way does not depend on the
constraints and foreign keys that come with other statements (`Sheet.Resembles`).

* `foldl_declare`, `foldl_addTable`: enumerations and tables of different names;
* `foldl_addIndex`, `foldl_alter`: indexes and keys, table by table;
* `foldl_resolve`: foreign keys, table by table, and their links.
-/

namespace DdlGraph.Recovery

open Sql

/-! ## Enumerations and tables -/

/-- The enumeration of a declaration. -/
def enumOf (x : String × List String) : Enumeration :=
  x.2.foldl Enumeration.pushValue { id := "", name := x.1 }

theorem enumOf_name (x : String × List String) : (enumOf x).name = x.1 :=
  Draft.foldl_pushValue_name _ _

theorem name_constrain (k : Constraint) (t : Table) (title : String) :
    (Draft.constrain k t title).name = t.name := by
  unfold Draft.constrain
  split <;> rfl

theorem name_tableOf (enums : List Enumeration) (x : TableDef) : (tableOf enums x).name = x.name := by
  have hfoldl : ∀ (k : Constraint) (titles : List String) (t : Table),
      (titles.foldl (Draft.constrain k) t).name = t.name := by
    intro k titles
    induction titles with
    | nil => exact fun _ => rfl
    | cons title titles ih => exact fun t => (ih _).trans (name_constrain k t title)
  unfold tableOf Draft.applyConstraints
  rw [hfoldl, hfoldl]

namespace Sheet

/-- **Declarations of different names** are all held. -/
theorem foldl_declare {declarations : List (String × List String)} {s : Sheet}
    (hn : (s.enums.map (fun e => Text.foldAscii e.name) ++
      declarations.map fun x => Text.foldAscii x.1).Nodup) :
    declarations.foldl (fun s x => s.declare x.1 x.2) s =
      { s with enums := s.enums ++ declarations.map enumOf } := by
  induction declarations generalizing s with
  | nil => rw [List.map_nil, List.append_nil]; rfl
  | cons x rest ih =>
    have hnone : enumByName? s.enums x.1 = none := by
      refine enumByName?_eq_none_iff.2 fun hm => ?_
      exact (List.nodup_append.1 hn).2.2 _ hm _ (.head _) rfl
    have hstep : s.declare x.1 x.2 = { s with enums := s.enums ++ [enumOf x] } := by
      unfold declare
      rw [hnone]
      rfl
    rw [List.foldl_cons, hstep, ih]
    · simp only [List.map_cons, List.append_assoc, List.singleton_append]
    · rw [List.map_append, List.map_singleton, enumOf_name, List.append_assoc]
      exact hn

/-- **Definitions of different names** are all held. -/
theorem foldl_addTable {definitions : List TableDef} {s : Sheet}
    (hn : (s.tables.map (fun t => Text.lower t.name) ++
      definitions.map fun x => Text.lower x.name).Nodup) :
    definitions.foldl addTable s =
      { s with
        tables := s.tables ++ definitions.map (tableOf s.enums)
        keys := s.keys ++ definitions.flatMap (keysOfTable s.enums)
        uses := s.uses ++ definitions.flatMap (usesOfTable s.enums)
        warnings := s.warnings ++ definitions.flatMap (missingOfTable s.enums) } := by
  induction definitions generalizing s with
  | nil => simp
  | cons x rest ih =>
    have hnone : s.table? x.name = none := by
      refine List.find?_eq_none.2 fun t ht he => ?_
      exact (List.nodup_append.1 hn).2.2 _ (List.mem_map_of_mem ht) _ (.head _) (eq_of_beq he)
    have hstep : s.addTable x =
        { s with
          tables := s.tables ++ [tableOf s.enums x]
          keys := s.keys ++ keysOfTable s.enums x
          uses := s.uses ++ usesOfTable s.enums x
          warnings := s.warnings ++ missingOfTable s.enums x } := by
      unfold addTable
      rw [hnone]
    rw [List.foldl_cons, hstep, ih]
    · simp only [List.map_cons, List.flatMap_cons, List.append_assoc, List.singleton_append]
    · rw [List.map_append, List.map_singleton, name_tableOf, List.append_assoc]
      exact hn

/-! ## Indexes and keys of other statements -/

/-- The constraint that an index of one column is in the table of that name, with the column. -/
def indexIn? (name : String) (x : String × List String × Bool) : Option (Constraint × String) :=
  match x.2.1 with
  | [column] =>
    if Text.lower name = Text.lower x.1 then
      some (if x.2.2 then .unique else .index, column)
    else none
  | _ => none

/-- An index, in one table. -/
def indexTable (t : Table) (x : String × List String × Bool) : Table :=
  match indexIn? t.name x with
  | some (k, column) => Draft.constrain k t column
  | none => t

theorem name_indexTable (t : Table) (x : String × List String × Bool) :
    (indexTable t x).name = t.name := by
  unfold indexTable
  split
  · exact name_constrain _ _ _
  · rfl

theorem name_foldl_indexTable (indexes : List (String × List String × Bool)) (t : Table) :
    (indexes.foldl indexTable t).name = t.name := by
  induction indexes generalizing t with
  | nil => rfl
  | cons x indexes ih => exact (ih _).trans (name_indexTable t x)

theorem tables_addIndex (s : Sheet) (x : String × List String × Bool) :
    ∃ w, s.addIndex x.1 x.2.1 x.2.2 =
      { s with tables := s.tables.map (indexTable · x), warnings := w } := by
  obtain ⟨table, columns, unique⟩ := x
  unfold addIndex indexTable indexIn?
  match columns with
  | [] => exact ⟨s.warnings, by simp⟩
  | _ :: _ :: _ => exact ⟨s.warnings, by simp⟩
  | [column] =>
    dsimp only
    cases hs : s.table? table with
    | some t =>
      refine ⟨s.warnings, ?_⟩
      unfold onTable
      dsimp only
      congr 1
      refine List.map_congr_left fun t _ => ?_
      split <;> rfl
    | none =>
      refine ⟨s.warnings ++ [.unknownIndexTable table], ?_⟩
      have hother : ∀ t ∈ s.tables, ¬Text.lower t.name = Text.lower table := fun t ht =>
        mt beq_iff_eq.2 (List.find?_eq_none.1 hs t ht)
      have hsame : (s.tables.map fun t => indexTable t (table, [column], unique)) = s.tables := by
        refine (List.map_congr_left fun t ht => ?_).trans (List.map_id _)
        unfold indexTable indexIn?
        dsimp only
        rw [if_neg (hother t ht)]
        rfl
      unfold indexTable indexIn? at hsame
      dsimp only at hsame ⊢
      rw [hsame]
      rfl

/-- **Indexes** are held table by table. -/
theorem foldl_addIndex (indexes : List (String × List String × Bool)) (s : Sheet) :
    ∃ w, indexes.foldl (fun s x => s.addIndex x.1 x.2.1 x.2.2) s =
      { s with tables := s.tables.map fun t => indexes.foldl indexTable t, warnings := w } := by
  induction indexes generalizing s with
  | nil => exact ⟨s.warnings, by simp⟩
  | cons x rest ih =>
    obtain ⟨w, hw⟩ := tables_addIndex s x
    obtain ⟨w', hw'⟩ := ih (s.addIndex x.1 x.2.1 x.2.2)
    refine ⟨w', ?_⟩
    rw [List.foldl_cons, hw', hw]
    simp only [List.map_map, Function.comp_def, List.foldl_cons]

/-- The keys of a statement that adds them to a table. -/
def keysOfAlter (s : Sheet) (x : String × KeyDef) : List NamedKey :=
  ((s.table? x.1).map fun t => keysIn t x.2).getD []

/-- **Keys that are added to tables**, one after the other. -/
theorem foldl_alter (added : List (String × KeyDef)) (s : Sheet) :
    ∃ w, added.foldl (fun s x => s.alter x.1 x.2) s =
      { s with keys := s.keys ++ added.flatMap s.keysOfAlter, warnings := w } := by
  induction added generalizing s with
  | nil => exact ⟨s.warnings, by simp⟩
  | cons x rest ih =>
    have hstep : ∃ w, s.alter x.1 x.2 =
        { s with keys := s.keys ++ s.keysOfAlter x, warnings := w } := by
      unfold alter keysOfAlter
      cases s.table? x.1 with
      | some t => exact ⟨_, rfl⟩
      | none => exact ⟨_, by rw [Option.map_none, Option.getD_none, List.append_nil]; rfl⟩
    obtain ⟨w, hw⟩ := hstep
    obtain ⟨w', hw'⟩ := ih (s.alter x.1 x.2)
    have hkeys : (s.alter x.1 x.2).keysOfAlter = s.keysOfAlter := by rw [hw]; rfl
    refine ⟨w', ?_⟩
    rw [List.foldl_cons, hw', hkeys, hw]
    simp only [List.flatMap_cons, List.append_assoc]

/-- **The sheet of statements** with different names. -/
theorem ofStatements_parts {statements : List Statement}
    (henums : ((statements.filterMap Draft.declared?).map fun x => Text.foldAscii x.1).Nodup)
    (htables : ((statements.filterMap Draft.defined?).map fun x => Text.lower x.name).Nodup) :
    let enums := (statements.filterMap Draft.declared?).map enumOf
    (ofStatements statements).enums = enums ∧
      (ofStatements statements).tables = (statements.filterMap Draft.defined?).map (fun x =>
        (statements.filterMap Draft.indexed?).foldl indexTable (tableOf enums x)) ∧
      (ofStatements statements).keys = (statements.filterMap Draft.defined?).flatMap
        (keysOfTable enums) ++ (statements.filterMap Draft.altered?).flatMap
          (ofStatements statements).keysOfAlter ∧
      (ofStatements statements).uses =
        (statements.filterMap Draft.defined?).flatMap (usesOfTable enums) := by
  intro enums
  have hdeclared := foldl_declare (s := {}) henums
  have hdefined := foldl_addTable
    (s := { ({} : Sheet) with enums := [] ++ (statements.filterMap Draft.declared?).map enumOf })
    htables
  rw [← hdeclared] at hdefined
  generalize hs : (statements.filterMap Draft.defined?).foldl addTable _ = s at hdefined
  obtain ⟨w, hindexed⟩ := foldl_addIndex (statements.filterMap Draft.indexed?) s
  generalize hs' : (statements.filterMap Draft.indexed?).foldl _ s = s' at hindexed
  obtain ⟨w', haltered⟩ := foldl_alter (statements.filterMap Draft.altered?) s'
  have hall : ofStatements statements = (statements.filterMap Draft.altered?).foldl
      (fun s x => s.alter x.1 x.2) s' := by
    rw [← hs', ← hs]
    rfl
  have hkeys : (ofStatements statements).keysOfAlter = s'.keysOfAlter := by
    rw [hall, haltered]
    rfl
  rw [hkeys, hall, haltered, hindexed, hdefined, hdeclared]
  refine ⟨rfl, ?_, rfl, rfl⟩
  simp only [List.nil_append, List.map_map, Function.comp_def]
  rfl

/-! ## What foreign keys look at -/

/-- **What a foreign key looks at** in a column is left alone. -/
structure Looks (f : Column → Column) : Prop where
  titles : KeepsTitles f
  unique : ∀ c, (f c).isUnique = c.isUnique

/-- What is found by name on both sheets is the same, but for what `f` leaves out. -/
def Resembles (f : Column → Column) (s s' : Sheet) : Prop :=
  ∀ name, (s.table? name).map (·.mapColumns f) = (s'.table? name).map (·.mapColumns f)

/-- The link of a key, if both its ends are there. -/
def linkIn? (s : Sheet) (k : NamedKey) : Option Link :=
  (s.source? k).bind fun c => (s.target? k).map (linkOf k c)

/-- What the source column of a key holds. -/
def keyIn (s : Sheet) (k : NamedKey) : ForeignKey :=
  foreignKeyOf k (s.target? k)

section
variable {f : Column → Column} (hf : Looks f) {s s' : Sheet} (h : Resembles f s s')
include hf h

theorem Resembles.source? (k : NamedKey) : (s.source? k).map f = (s'.source? k).map f := by
  have hsource : ∀ s : Sheet, (s.source? k).map f =
      ((s.table? k.table).map (·.mapColumns f)).bind (·.column? k.column) := by
    intro s
    unfold Sheet.source?
    cases s.table? k.table with
    | none => rfl
    | some t => exact (Table.column?_mapColumns hf.titles k.column).symm
  rw [hsource, hsource, h]

theorem Resembles.target? (k : NamedKey) :
    (s.target? k).map (fun x => (x.1.mapColumns f, f x.2)) =
      (s'.target? k).map fun x => (x.1.mapColumns f, f x.2) := by
  have htarget : ∀ s : Sheet, (s.target? k).map (fun x => (x.1.mapColumns f, f x.2)) =
      ((s.table? k.reference.table).map (·.mapColumns f)).bind fun t =>
        (t.findColumn? k.targetColumn).map fun c => (t, c) := by
    intro s
    unfold Sheet.target?
    cases s.table? k.reference.table with
    | none => rfl
    | some t =>
      simp only [Option.map_some, Option.bind_some, Table.findColumn?_mapColumns hf.titles,
        Option.map_map]
      rfl
  rw [htarget, htarget, h]

theorem Resembles.keyIn (k : NamedKey) : s.keyIn k = s'.keyIn k := by
  have hkey : ∀ s : Sheet, s.keyIn k =
      foreignKeyOf k ((s.target? k).map fun x => (x.1.mapColumns f, f x.2)) := by
    intro s
    unfold Sheet.keyIn foreignKeyOf Draft.foreignKeyOf
    cases s.target? k with
    | none => rfl
    | some x => simp only [Option.map_some, hf.titles x.2]; rfl
  rw [hkey, hkey, h.target? hf]

theorem Resembles.linkIn? (k : NamedKey) : s.linkIn? k = s'.linkIn? k := by
  have hlink : ∀ s : Sheet, s.linkIn? k = ((s.source? k).map f).bind fun c =>
      ((s.target? k).map fun x => (x.1.mapColumns f, f x.2)).map (linkOf k c) := by
    intro s
    unfold Sheet.linkIn?
    cases s.source? k with
    | none => rfl
    | some c =>
      cases s.target? k with
      | none => rfl
      | some x =>
        unfold linkOf
        simp only [Option.map_some, Option.bind_some, hf.titles x.2, hf.unique]
        rfl
  rw [hlink, hlink, h.source? hf, h.target? hf]

theorem Resembles.keysOfAlter (x : String × KeyDef) : s.keysOfAlter x = s'.keysOfAlter x := by
  have hkeys : ∀ t : Table, keysIn (t.mapColumns f) x.2 = keysIn t x.2 := by
    intro t
    unfold keysIn
    simp only [Table.findColumn?_mapColumns hf.titles, Option.map_map, Function.comp_def,
      hf.titles _]
    rfl
  have halter : ∀ s : Sheet, s.keysOfAlter x =
      (((s.table? x.1).map (·.mapColumns f)).map fun t => keysIn t x.2).getD [] := by
    intro s
    unfold Sheet.keysOfAlter
    rw [Option.map_map]
    simp only [Function.comp_def, hkeys]
  rw [halter, halter, h]

end

/-! ## Foreign keys -/

/-- A foreign key, set in its column of one table. -/
def keyed (s : Sheet) (t : Table) (k : NamedKey) : Table :=
  if Text.lower t.name = Text.lower k.table then
    t.updateColumn k.column fun c => { c with foreignKey := some (s.keyIn k) }
  else t

/-- A column without its foreign key. -/
def keyless (c : Column) : Column :=
  { c with foreignKey := none }

theorem looks_keyless : Looks keyless :=
  ⟨fun _ => rfl, fun _ => rfl⟩

theorem name_keyed (s : Sheet) (t : Table) (k : NamedKey) : (s.keyed t k).name = t.name := by
  unfold keyed
  split <;> rfl

theorem keyless_keyed (s : Sheet) (t : Table) (k : NamedKey) :
    (s.keyed t k).mapColumns keyless = t.mapColumns keyless := by
  unfold keyed Table.mapColumns Table.updateColumn
  split
  · dsimp only
    rw [map_updateFirst]
    exact fun _ => rfl
  · rfl

theorem updateFirst_of_none {α : Type} {p : α → Bool} {as : List α} (h : as.find? p = none)
    (f : α → α) : updateFirst p f as = as := by
  induction as with
  | nil => rfl
  | cons a as ih =>
    rw [List.find?_cons] at h
    unfold updateFirst
    cases ha : p a with
    | true => rw [ha] at h; cases h
    | false =>
      rw [ha] at h
      rw [ih h]
      rfl

theorem table?_of_mem {s : Sheet} (hn : (s.tables.map fun t => Text.lower t.name).Nodup) {t : Table}
    (ht : t ∈ s.tables) {name : String} (hname : Text.lower t.name = Text.lower name) :
    s.table? name = some t := by
  refine find?_of_nodup hn ht (beq_iff_eq.2 hname) fun u _ hu => ?_
  exact (eq_of_beq hu).trans hname.symm

/-- **One foreign key** is set in the table of its name. -/
theorem resolve_eq {s : Sheet} (hn : (s.tables.map fun t => Text.lower t.name).Nodup)
    (links : List Link) (k : NamedKey) :
    ∃ w, resolve (s, links) k =
      ({ s with tables := s.tables.map (s.keyed · k), warnings := w },
        links ++ (s.linkIn? k).toList) := by
  unfold resolve linkIn?
  dsimp only
  cases hs : s.source? k with
  | none =>
    have hsame : s.tables.map (s.keyed · k) = s.tables := by
      refine (List.map_congr_left fun t ht => ?_).trans (List.map_id _)
      unfold keyed
      split
      · rename_i hname
        unfold source? at hs
        rw [table?_of_mem hn ht hname] at hs
        unfold Table.updateColumn
        rw [updateFirst_of_none hs]
        rfl
      · rfl
    refine ⟨s.warnings, ?_⟩
    rw [hsame]
    simp
  | some c =>
    have hset : s.onTable k.table (setKey k.column (s.keyIn k)) =
        { s with tables := s.tables.map (s.keyed · k) } := by
      unfold onTable
      congr 1
      refine List.map_congr_left fun t ht => ?_
      unfold keyed
      split
      · rename_i hname
        unfold source? at hs
        rw [table?_of_mem hn ht hname] at hs
        have htitle := Table.title_of_column? hs
        unfold setKey
        rw [Draft.findColumn?_of_column? hs, ← htitle]
      · rfl
    unfold keyIn at hset
    cases ht : s.target? k with
    | none =>
      rw [ht] at hset
      dsimp only
      rw [hset]
      exact ⟨_, by simp [warn]; rfl⟩
    | some x =>
      rw [ht] at hset
      dsimp only
      rw [hset]
      exact ⟨_, rfl⟩

/-- **All foreign keys** are set table by table; none of them changes what the others look at. -/
theorem foldl_resolve {s : Sheet} (keys : List NamedKey) {s₁ : Sheet}
    (hn : (s₁.tables.map fun t => Text.lower t.name).Nodup) (h : Resembles keyless s₁ s)
    (links : List Link) :
    ∃ w, keys.foldl resolve (s₁, links) =
      ({ s₁ with tables := s₁.tables.map fun t => keys.foldl s.keyed t, warnings := w },
        links ++ keys.filterMap s.linkIn?) := by
  induction keys generalizing s₁ links with
  | nil => exact ⟨s₁.warnings, by simp⟩
  | cons k keys ih =>
    obtain ⟨w, hstep⟩ := resolve_eq hn links k
    have hkeyed : ∀ t, s₁.keyed t k = s.keyed t k := by
      intro t
      unfold keyed
      rw [h.keyIn looks_keyless]
    simp only [hkeyed] at hstep
    have hnames : ((s₁.tables.map (s.keyed · k)).map fun t => Text.lower t.name).Nodup := by
      rw [List.map_map]
      simp only [Function.comp_def, name_keyed]
      exact hn
    have hresembles : Resembles keyless
        { s₁ with tables := s₁.tables.map (s.keyed · k), warnings := w } s := by
      intro name
      rw [← h name]
      unfold table?
      rw [List.find?_map, Option.map_map]
      simp only [Function.comp_def, name_keyed, keyless_keyed]
    obtain ⟨w', hrest⟩ := ih hnames hresembles (links ++ (s₁.linkIn? k).toList)
    refine ⟨w', ?_⟩
    rw [List.foldl_cons, hstep, hrest, h.linkIn? looks_keyless, Draft.filterMap_cons_toList,
      List.append_assoc, List.map_map]
    rfl

/-- **The links of a sheet**, and its tables with what their columns refer to. -/
theorem links_eq {s : Sheet} (hn : (s.tables.map fun t => Text.lower t.name).Nodup) :
    s.links.1.enums = s.enums ∧ s.links.1.tables = s.tables.map (fun t => s.keys.foldl s.keyed t) ∧
      s.links.2 = s.keys.filterMap s.linkIn? ++ s.uses.map enumLinkOf := by
  obtain ⟨w, hresolved⟩ := foldl_resolve s.keys hn (fun _ => rfl) []
  unfold links
  rw [hresolved]
  exact ⟨rfl, rfl, rfl⟩

end Sheet

end DdlGraph.Recovery
