import DdlGraph.Proofs.DialectTypes
import DdlGraph.Proofs.ListedEnums

/-!
# A canonical graph comes back where enumerations are not declared

In MySQL and SQLite a column lists the values of its enumeration, and types have other names. A
canonical graph comes back from such a text but for the names of types: the type of a column may be
another one, and its enumeration another one with the same values.

* `Graph.Keeps`: what comes back;
* `exists_listing`: what the columns of the text are read as;
* `recover_script_listed`: the round trip, for both places of foreign keys.
-/

namespace DdlGraph

open Sql Ddl

/-! ## What is kept -/

/-- **Kept column**: everything but its type, and of an enumeration the values. MySQL also keeps
whether it counts up. -/
structure Column.Kept (dialect : Dialect) (enums enums' : List Enumeration) (c c' : Column) :
    Prop where
  title : c'.title = c.title
  default : c'.defaultValue = c.defaultValue
  constraints : c'.constraints.Perm c.constraints
  foreignKey : c'.foreignKey = c.foreignKey
  counts : dialect = .mysql → c'.autoIncrement = c.autoIncrement
  values : ∀ e ∈ enums, c.dataType = e.columnType →
    ∃ e', c'.enumName?.bind (enumByName? enums') = some e' ∧ c'.dataType = e'.columnType ∧
      e'.values = e.values

/-- The same table, as far as its columns are kept. -/
def Table.Kept (dialect : Dialect) (enums enums' : List Enumeration) (t t' : Table) : Prop :=
  t' = { t with columns := t'.columns } ∧
    List.Forall₂ (Column.Kept dialect enums enums') t.columns t'.columns

/-- **Kept graph**: its tables come back in their order. -/
def Graph.Keeps (dialect : Dialect) (g g' : Graph) : Prop :=
  List.Forall₂ (Table.Kept dialect g.enums g'.enums) g.tables g'.tables

/-- The defaults of the graph are safe in the dialect. -/
def Graph.DefaultsSafeIn (g : Graph) (dialect : Dialect) : Prop :=
  ∀ t ∈ g.tables, ∀ c ∈ t.columns, ∀ v ∈ c.defaultValue, SafeIn dialect v

/-! ## Types -/

/-- A canonical type that is no enumeration is built in. It counts up only where the column says
so, and in capitals it does not count up by itself. -/
theorem CanonicalType.cases_builtIn {g : Graph} {c : Column} (h : CanonicalType g c) :
    (∃ e ∈ g.enums, c.dataType = e.columnType ∧ c.autoIncrement = false) ∨
      ∃ base n, BuiltIn base n c ∧ countsUp c = c.autoIncrement ∧
        (BaseType.normalize (arrayOf (Text.upper base) n)).serial = false := by
  have hmem : ∀ base ∈ plainTypes, base ∈ builtInTypes := by decide
  have hlower : ∀ base ∈ plainTypes, ∀ n, Text.lower (arrayOf base n) = arrayOf base n := by
    intro base hb n
    rw [lower_arrayOf (plainName_of_mem hb).word.ascii, (plainName_of_mem hb).folded]
  have hserial : ∀ base ∈ plainTypes, ∀ n,
      (BaseType.normalize (arrayOf (Text.upper base) n)).serial = false := by
    intro base hb n
    rw [normalize_plain hb]
  cases h with
  | enumeration e mem type params up => exact .inl ⟨e, mem, type, up⟩
  | plain base n mem type params up =>
    refine .inr ⟨base, n, ⟨hmem base mem, ?_, params⟩, ?_, hserial base mem n⟩
    · rw [type, hlower base mem]
    · rw [up]
      exact (fixedType_plain mem type up).noCount
  | double type params up =>
    refine .inr ⟨"double", 0, ⟨by decide, ?_, ?_⟩, ?_, by decide +kernel⟩
    · rw [type]
      decide
    · rw [params]
      exact nofun
    · rw [up]
      exact (fixedType_double type up).noCount
  | counting mem params up primary =>
    have hplain : ∀ base ∈ countingTypes, base ∈ plainTypes := by decide
    refine .inr ⟨c.dataType, 0, ⟨hmem _ (hplain _ mem), ?_, ?_⟩, ?_, hserial _ (hplain _ mem) 0⟩
    · have hzero := hlower _ (hplain _ mem) 0
      rw [arrayOf_zero] at hzero ⊢
      exact hzero
    · rw [params]
      exact nofun
    · unfold countsUp
      rw [up]
      rfl

namespace Recovery.Draft

/-- **What the type of a column is read as**, where enumerations are listed. -/
structure ListedAs (s : Settings) (g : Graph) (c : Column) (keyHere : Bool) (d : ColumnDef) :
    Prop where
  reads : TypeReads s.dialect.escapesBackslash ((typeClause s g c keyHere).text s).toList c.title d
  typeSays : TypeSays (typeClause s g c keyHere) c d
  lists : ListsValues g c d
  counts : s.dialect = .mysql → d.autoIncrement = c.autoIncrement

section
variable {s : Settings} (hs : s.dialect ≠ .postgresql) {g : Graph} (hg : g.Canonical) {c : Column}
include hs hg

/-- **Columns of enumerations** list their values. -/
theorem exists_listedAs_enum {e : Enumeration} (he : e ∈ g.enums)
    (ht : c.dataType = e.columnType) (hu : c.autoIncrement = false) (keyHere : Bool) :
    ∃ d, ListedAs s g c keyHere d := by
  have hname := enumName?_columnType ht (hg.enumNamed e he)
  have hfound : g.enumByName? e.name = some e := hg.enumByName?_eq he
  have hlisted : ∀ d : ColumnDef, d.inlineValues = some e.values →
      (BaseType.normalize d.typeName).serial = false → ListsValues g c d := by
    intro d hd hplain
    refine ⟨fun e' he' ht' => ?_, fun values hv => ?_, hplain⟩
    · have hname' := enumName?_columnType ht' (hg.enumNamed e' he')
      have hsame : e.name = e'.name := Option.some.inj (hname.symm.trans hname')
      obtain rfl := List.inj_on_of_nodup_map hg.enumNames he he' (congrArg Text.lower hsame)
      exact hd
    · rw [hd] at hv
      exact Option.some.inj hv ▸ hg.values e he
  have henum : (BaseType.normalize "enum").serial = false := by decide +kernel
  have htext : (BaseType.normalize "TEXT").serial = false := by decide +kernel
  have hclause : typeClause s g c keyHere = .type (enumType s g e.name c.title) := by
    unfold typeClause
    rw [hname]
  unfold enumType at hclause
  rw [hfound] at hclause
  cases hd : s.dialect with
  | postgresql => exact absurd hd hs
  | mysql =>
    rw [hd] at hclause
    refine ⟨{ name := c.title, typeName := "enum", inlineValues := some e.values }, ?_, ?_,
      hlisted _ rfl henum, fun _ => hu.symm⟩
    · rw [hclause, hd]
      exact typeReads_enumList (fun _ _ _ => rfl) c.title
    · rw [hclause]
      exact ⟨rfl, rfl, rfl, rfl, rfl, rfl⟩
  | sqlite =>
    rw [hd] at hclause
    refine ⟨{ name := c.title, typeName := "TEXT", inlineValues := some e.values }, ?_, ?_,
      hlisted _ rfl htext, fun _ => hu.symm⟩
    · rw [hclause, hd]
      exact typeReads_enumCheck (fun _ _ _ => rfl) s c.title
    · rw [hclause]
      exact ⟨rfl, rfl, rfl, rfl, rfl, rfl⟩

/-- **Every column of a canonical type** is read as a listed one. -/
theorem exists_listedAs (h : CanonicalType g c) (keyHere : Bool) :
    ∃ d, ListedAs s g c keyHere d := by
  rcases h.cases_builtIn with ⟨e, he, ht, hu⟩ | ⟨base, n, hbuilt, hcounts, hplain⟩
  · exact exists_listedAs_enum hs hg he ht hu keyHere
  · obtain ⟨d, hreads, hsays, hinline, hup, hserial⟩ := hbuilt.exists_typeReads s g keyHere
    refine ⟨d, hreads _, hsays, ⟨fun e he ht => ?_, fun values hv => ?_, ?_⟩, fun hm => ?_⟩
    · have hname := enumName?_columnType ht (hg.enumNamed e he)
      rw [hbuilt.enumName?] at hname
      cases hname
    · rw [hinline] at hv
      cases hv
    · rcases hserial hs with hserial | hname
      · exact hserial
      · rw [hname]
        exact hplain
    · rw [hup hm, hcounts]

/-- **The columns of a text without enumerations** are read as listed ones, and with them the
graph. -/
theorem exists_listing (hcase : s.caseSensitive = true) (hd : g.DefaultsSafeIn s.dialect) :
    ∃ typed, Readable s g typed s.dialect.escapesBackslash ∧ Listing s g typed ∧
      ∀ t ∈ g.tables, ∀ c ∈ t.columns, ∀ keyHere, s.dialect = .mysql →
        (typed c keyHere).autoIncrement = c.autoIncrement := by
  have htypes : ∀ c keyHere, ∃ d : ColumnDef,
      d.name = c.title ∧ (CanonicalType g c → ListedAs s g c keyHere d) := by
    intro c keyHere
    by_cases hc : CanonicalType g c
    · obtain ⟨d, hlisted⟩ := exists_listedAs hs hg hc keyHere
      exact ⟨d, hlisted.typeSays.name, fun _ => hlisted⟩
    · exact ⟨{ name := c.title }, rfl, fun h => absurd h hc⟩
  choose typed hname hlisted using htypes
  have hall : ∀ t ∈ g.tables, ∀ c ∈ t.columns, ∀ keyHere, ListedAs s g c keyHere (typed c keyHere) :=
    fun t ht c hc keyHere => hlisted c keyHere (hg.columns t ht c hc).type
  refine ⟨typed, ⟨fun h => absurd h hs, fun t ht => ?_, fun key hkey => ?_⟩, ⟨hname, ?_, ?_⟩, ?_⟩
  · refine ⟨fun c _ => namesColumn_of_caseSensitive hcase c.title, fun c hc => ⟨?_, ?_, ?_⟩⟩
    · exact (hall t ht c hc _).reads
    · exact fun v hv => restores_of_safeIn (hd t ht c hc v hv)
    · intro key hkey
      rw [Option.mem_def, hg.keyOfColumn?_inside s ht hc] at hkey
      split at hkey
      · obtain ⟨k, hk, rfl⟩ := Option.map_eq_some_iff.1 hkey
        exact hg.hasActions ⟨t, ht, c, hc, k, hk, rfl⟩
      · cases hkey
  · exact hg.hasActions ((hg.mem_keysOf key).1 hkey)
  · exact fun t ht c hc keyHere => (hall t ht c hc keyHere).typeSays
  · exact fun t ht c hc keyHere => (hall t ht c hc keyHere).lists
  · exact fun t ht c hc keyHere => (hall t ht c hc keyHere).counts

end

/-! ## Draft of a text -/

/-- **Draft after all phases**, where enumerations are listed: it has the tables of the graph, the
foreign keys of its columns wait, and each column of an enumeration has one with its values. -/
structure ReadyListed (s : Settings) (g : Graph) (r : Reading) (d : Draft) : Prop where
  rebuilt : Rebuilt g (plainColumn s g r) d
  pending : ∀ p, p ∈ d.pending ↔ IsPending g p
  chosen : ∀ t ∈ g.tables, ∀ c ∈ t.columns, ChosenFor g d.enums c (r.choice t c)
  usable : Usable d.enums

section
variable {s : Settings} (hs : s.dialect ≠ .postgresql) {g : Graph} (hg : g.Canonical)
  {typed : Column → Bool → ColumnDef} (hl : Listing s g typed)
include hs hg

theorem readyListed_ofStatements {statements : List Statement}
    (h : statements.map (Statement.reline fun _ => 0) = statementsOf s g typed) :
    ∃ choice, ReadyListed s g ⟨typed, choice, hl.name⟩ (ofStatements (some g) statements) := by
  have hdeclared : statements.filterMap declared? = [] := by
    have hlines := filterMap_reline declared? (f := fun _ => 0) (u := id)
      (fun s => by cases s <;> rfl) statements
    rw [h, declared_statementsOf, if_neg hs, List.map_id] at hlines
    exact hlines.symm
  have hdefined : (statements.filterMap defined?).map (TableDef.reline fun _ => 0) =
      g.tables.map (readTable s g typed) := by
    have hlines := filterMap_reline defined? (f := fun _ => 0) (u := TableDef.reline fun _ => 0)
      (fun s => by cases s <;> rfl) statements
    rw [h, defined_statementsOf] at hlines
    exact hlines.symm
  have hstart : Usable [] := ⟨⟨List.nodup_nil, nofun⟩, nofun⟩
  obtain ⟨choice, hstep⟩ := foldl_addTable_listed hg hl (List.nil_append g.tables) hdefined
    (d := { pool := IdPool.ofGraph g }) hstart rfl rfl
  have hprior : Prior.ofGraph? (some g) = Prior.ofGraph g := rfl
  have hpool : IdPool.ofGraph? (some g) = IdPool.ofGraph g := rfl
  rw [ofStatements_eq, hprior, hpool, hdeclared, List.foldl_nil]
  generalize (statements.filterMap defined?).foldl (addTable (Prior.ofGraph g))
    { pool := IdPool.ofGraph g } = d at hstep
  have htables : Rebuilt g (keyedColumn s g ⟨typed, choice, hl.name⟩) d :=
    ⟨hstep.tables, hstep.tableIds, keepsTitles_keyedColumn s g _⟩
  have hpending : ∀ p, p ∈ d.pending ↔ inlinesKeys s = true ∧ IsPending g p := by
    intro p
    rw [hstep.pending]
    exact mem_tablePending hg s p
  obtain ⟨tables, pending, hlate, hrebuilt, hwaiting⟩ := late_rebuilt hg h htables hpending
  refine ⟨choice, ?_⟩
  rw [hlate]
  exact ⟨hrebuilt, hwaiting, hstep.chosen, hstep.usable⟩

end

/-! ## Columns of the outcome -/

section
variable {s : Settings} {g : Graph} (hg : g.Canonical) {t : Table} (ht : t ∈ g.tables) {c : Column}
  (hc : c ∈ t.columns)
include hg ht hc

/-- **A column with its foreign key** is kept. -/
theorem kept_plainColumn {r : Reading} (hr : r.Fits s g) {enums : List Enumeration}
    (hchosen : ChosenFor g enums c (r.choice t c)) (husable : Usable enums)
    (hcounts : ∀ keyHere, s.dialect = .mysql → (r.typed c keyHere).autoIncrement = c.autoIncrement) :
    c.Kept s.dialect g.enums enums { plainColumn s g r t c with foreignKey := c.foreignKey } := by
  have hsaid := hr.typed t ht c hc (c.isPrimary && !promotesKey t (insideKeys s (keysOf g) t))
  have hdefault : (readColumn s g r.typed t c).defaultValue = c.defaultValue :=
    defaultValue_columnDef _ hsaid
  have hplain := plainColumn_eq s g r t c
  constructor
  · dsimp only
    rw [hplain]
    exact keepsTitles_builtColumn s g r t c
  · dsimp only
    rw [hplain]
    exact hdefault
  · exact perm_plainColumn hg ht hc hr
  · rfl
  · intro hm
    have hup : (builtColumn s g r t c).autoIncrement =
        ((r.choice t c).serial || (readColumn s g r.typed t c).autoIncrement) := rfl
    dsimp only
    rw [hplain]
    dsimp only
    rw [hup, hchosen.serial, Bool.false_or]
    exact hcounts _ hm
  · intro e he htype
    obtain ⟨e', he', hsame, hvalues⟩ := hchosen.typed e he htype
    have htype' : ({ plainColumn s g r t c with foreignKey := c.foreignKey } : Column).dataType =
        e'.columnType := by
      dsimp only
      rw [hplain]
      exact hsame
    refine ⟨e', ?_, htype', hvalues⟩
    rw [enumName?_columnType htype' (husable.named e' he')]
    exact husable.enumByName? he'

end

end Recovery.Draft

namespace Recovery

open Draft

/-- **The outcome of a ready draft** keeps the graph. -/
theorem keeps_of_readyListed {s : Settings} {g : Graph} (hg : g.Canonical) {r : Reading}
    (hr : r.Fits s g)
    (hcounts : ∀ t ∈ g.tables, ∀ c ∈ t.columns, ∀ keyHere, s.dialect = .mysql →
      (r.typed c keyHere).autoIncrement = c.autoIncrement)
    {d : Draft} (h : ReadyListed s g r d) :
    g.Keeps s.dialect (Outcome.ofDraft (some g) d.links.1 d.links.2).graph := by
  obtain ⟨d', ls, he, hresolves⟩ :=
    foldl_resolveKey_canonical hg (fun p hp => (h.pending p).1 hp) h.rebuilt []
  have hlinks : d.links.1 = d' := by
    unfold links
    rw [he]
  have hsites : ∀ t ∈ g.tables, ∀ c ∈ t.columns, c.foreignKey.isSome →
      (t.id, c.title) ∈ d.pending.map siteOf := by
    intro t ht c hc hsome
    obtain ⟨k, hk⟩ := Option.isSome_iff_exists.1 hsome
    exact List.mem_map.2 ⟨pendingOf t c k, (h.pending _).2 ⟨t, ht, c, hc, k, hk, rfl⟩, rfl⟩
  show List.Forall₂ (Table.Kept s.dialect g.enums d.links.1.enums) g.tables d.links.1.tables
  rw [hlinks, hresolves.rebuilt.tables, hresolves.enums, List.forall₂_map_right_iff,
    List.forall₂_same]
  intro t ht
  refine ⟨rfl, ?_⟩
  change List.Forall₂ (Column.Kept s.dialect g.enums d.enums) t.columns (t.columns.map _)
  rw [List.forall₂_map_right_iff, List.forall₂_same]
  intro c hc
  rw [touched_withKey hsites s r ht hc]
  exact kept_plainColumn hg ht hc hr (h.chosen t ht c hc) h.usable (hcounts t ht c hc)

/-- **Round trip without declared enumerations**: a canonical graph comes back from its text for
MySQL or SQLite, but for the names of types, wherever foreign keys stand in it. -/
theorem recover_script_listed {s : Settings} {g : Graph} {time : String}
    (hs : s.dialect = .mysql ∨
      s.dialect = .sqlite ∧ Dialect.detect (script s time g) ≠ .mysql)
    (hcase : s.caseSensitive = true) (hg : g.Canonical) (hd : g.DefaultsSafeIn s.dialect)
    (ht : '\n' ∉ time.toList) :
    ∃ o, recover (script s time g) (some g) = .ok o ∧ g.Keeps s.dialect o.graph := by
  have hdialect : s.dialect ≠ .postgresql := by
    rcases hs with hs | ⟨hs, -⟩
    · rw [hs]
      decide
    · rw [hs]
      decide
  have hescapes : (Dialect.detect (script s time g)).escapesBackslash =
      s.dialect.escapesBackslash := by
    rcases hs with hs | ⟨hs, hdetect⟩
    · rw [detect_script_mysql hs, hs]
    · rw [escapesBackslash_eq_false hdetect, hs]
      rfl
  obtain ⟨typed, hreadable, hl, hcounts⟩ := exists_listing hdialect hg hcase hd
  rw [← hescapes] at hreadable
  have hstatements := congrArg Script.statements (ofText_script ht hreadable)
  obtain ⟨choice, hready⟩ := readyListed_ofStatements hdialect hg hl hstatements
  have hfits : Reading.Fits ⟨typed, choice, hl.name⟩ s g := by
    refine ⟨hl.fits, fun t ht c hc hserial => ?_⟩
    rw [(hready.chosen t ht c hc).serial] at hserial
    cases hserial
  have hkeeps := keeps_of_readyListed hg hfits hcounts hready
  have hne : (ofStatements (some g) (Script.ofText (script s time g)).statements).links.1.tables ≠
      [] := by
    intro hnil
    unfold Graph.Keeps at hkeeps
    rw [show (Outcome.ofDraft (some g) _ _).graph.tables = [] from hnil] at hkeeps
    exact hg.nonempty (List.forall₂_nil_right_iff.1 hkeeps)
  exact ⟨_, recover_eq_ok_iff.2 ⟨hne, rfl⟩, hkeeps⟩

/-- The orders in MySQL, where the state of an order lists its values. -/
theorem recover_script_listed_orders :
    ∃ o, recover (script { dialect := .mysql } "now" ordersGraph) (some ordersGraph) = .ok o ∧
      ordersGraph.Keeps .mysql o.graph := by
  have hd : ordersGraph.DefaultsSafeIn .mysql := by
    intro t ht c hc v hv
    rcases List.mem_cons.1 ht with rfl | ht
    · obtain rfl := List.mem_singleton.1 hc
      cases hv
    · obtain rfl := List.mem_singleton.1 ht
      rcases List.mem_cons.1 hc with rfl | hc
      · cases hv
      · obtain rfl := List.mem_singleton.1 hc
        obtain rfl := Option.some.inj hv
        exact .inl (by decide)
  exact recover_script_listed (s := { dialect := .mysql }) (.inl rfl) rfl canonical_ordersGraph hd
    (show '\n' ∉ "now".toList by decide)

end Recovery

end DdlGraph
