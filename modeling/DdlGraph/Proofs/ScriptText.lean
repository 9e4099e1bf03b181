import DdlGraph.Proofs.LetterCase
import DdlGraph.Proofs.StatementText

/-!
# The text of a graph reads back

What the text of a graph is read as (`statementsOf`), for every dialect and both places for foreign
keys. What depends on the dialect is how a column is typed: `typed` is what its type is read as, and
`Readable` says that it is.

* `beginsRead_tableText`: a table with its indexes;
* `ofText_script_lines`: the script of the text, where each table stands on the line that the text
  before it ends on;
* `ofText_script`: the script of the text, but for the lines;
* `detect_script_eq_mysql_iff`: when a text is taken for one of another dialect.
-/

namespace DdlGraph.Ddl

open DdlGraph.Sql

/-! ## Statements of a graph -/

/-- The keys that stand inside of the definition of a table. -/
def insideKeys (s : Settings) (keys : List KeySpec) (t : Table) : List KeySpec :=
  if inlinesKeys s then keys.filter (·.sourceTable == t.name) else []

section
variable (s : Settings) (g : Graph) (typed : Column → Bool → ColumnDef)

/-- The definition of a column. -/
def columnDef (promoted : Bool) (key : Option KeySpec) (c : Column) : ColumnDef :=
  finished (statesKey s g promoted c) (clauseKey s key) c (typed c (c.isPrimary && !promoted))

section
variable {s g typed} {promoted : Bool} (key : Option KeySpec) {c : Column}
  (h : TypeSays (typeClause s g c (c.isPrimary && !promoted)) c
    (typed c (c.isPrimary && !promoted)))
include h

theorem name_columnDef : (columnDef s g typed promoted key c).name = c.title :=
  h.name

theorem defaultValue_columnDef :
    (columnDef s g typed promoted key c).defaultValue = c.defaultValue := by
  unfold columnDef finished
  dsimp only
  rw [h.default, Option.or_none]

theorem notNull_columnDef : (columnDef s g typed promoted key c).notNull = c.has .notNull := by
  unfold columnDef finished
  dsimp only
  rw [h.notNull, Bool.false_or]

theorem unique_columnDef : (columnDef s g typed promoted key c).unique = c.has .unique := by
  unfold columnDef finished
  dsimp only
  rw [h.unique, Bool.false_or]

/-- The key is stated once, by the type or behind it. -/
theorem primary_columnDef :
    (columnDef s g typed promoted key c).primary = (c.isPrimary && !promoted) := by
  have hhere := @keyHere_of_isPrimaryKey s g c (c.isPrimary && !promoted)
  unfold columnDef finished statesKey
  dsimp only
  rw [h.primary]
  cases hkey : (typeClause s g c (c.isPrimary && !promoted)).isPrimaryKey with
  | true => exact (hhere hkey).symm
  | false => rw [Bool.false_or, Bool.not_false, Bool.and_true]

theorem reference_columnDef :
    (columnDef s g typed promoted key c).reference = (clauseKey s key).map KeySpec.reference := by
  unfold columnDef finished
  dsimp only
  rw [h.reference, Option.or_none]

end

/-- The definition of a table, on no line. -/
def tableDef (inside : List KeySpec) (t : Table) : TableDef where
  name := t.name
  line := 0
  columns := t.columns.map fun c =>
    columnDef s g typed (promotesKey t inside) (keyOfColumn? inside c) c
  primaryKey := if promotesKey t inside then (primaryColumns t).map (·.title) else []
  foreignKeys := if s.dialect = .mysql then inside.map KeySpec.keyDef else []

/-- The statements of a table: its definition, then its indexes. -/
def tableStatements (keys : List KeySpec) (t : Table) : List Statement :=
  .createTable (tableDef s g typed (insideKeys s keys t) t) ::
    (indexedColumns t).map fun c => .createIndex t.name [c.title] false

/-- The statements of enumerations, where they are declared. -/
def enumStatements : List Statement :=
  if s.dialect = .postgresql then g.enums.map fun e => .createType e.name e.values else []

/-- The statements of foreign keys that are added to tables. -/
def keyStatements : List Statement :=
  if inlinesKeys s then [] else
    (keysOf g).map fun k => .alterForeignKey k.sourceTable k.keyDef

/-- **Statements of a graph.** -/
def statementsOf : List Statement :=
  enumStatements s g ++ g.tables.flatMap (tableStatements s g typed (keysOf g)) ++ keyStatements s g

/-- The statements of tables whose text begins on line `n`. -/
def tablesFrom (n : Nat) : List Table → List Statement
  | [] => []
  | t :: ts =>
    (tableStatements s g typed (keysOf g) t).map (Statement.onLine n) ++
      tablesFrom (lineAfter n (tableText s g (keysOf g) t).toList) ts

/-- **Readable table**: its columns are read as they are typed, and none as an item of another
kind. -/
structure TableReads (b : Bool) (inside : List KeySpec) (t : Table) : Prop where
  names : ∀ c ∈ t.columns, NamesColumn s c.title
  columns : ∀ c ∈ t.columns, ColumnReads s g b (promotesKey t inside) (keyOfColumn? inside c) c
    (typed c (c.isPrimary && !promotesKey t inside))

/-- **Readable graph**: its values, its tables and its keys come back from a text whose strings are
escaped as `b` says. -/
structure Readable (b : Bool) : Prop where
  values : s.dialect = .postgresql → b = false ∨ ∀ e ∈ g.enums, ∀ v ∈ e.values, '\\' ∉ v.toList
  tables : ∀ t ∈ g.tables, TableReads s g typed b (insideKeys s (keysOf g) t) t
  keys : ∀ k ∈ keysOf g, k.HasActions

end

/-! ## Tables -/

/-- The items of a table, with what each does to its definition. -/
def itemEffects (s : Settings) (g : Graph) (typed : Column → Bool → ColumnDef)
    (inside : List KeySpec) (t : Table) : List (Item × (TableDef → TableDef)) :=
  (t.columns.map fun c =>
    (.column c.title (clauses s g (promotesKey t inside) (keyOfColumn? inside c) c),
      addColumnDef (columnDef s g typed (promotesKey t inside) (keyOfColumn? inside c) c))) ++
    (if promotesKey t inside then
      [(.primaryKey ((primaryColumns t).map (·.title)),
        addPrimaryKey ((primaryColumns t).map (·.title)))]
    else []) ++
    (if s.dialect = .mysql then inside.map fun k => (.foreignKey k, addKeyDef k) else [])

theorem map_itemEffects (s : Settings) (g : Graph) (typed : Column → Bool → ColumnDef)
    (inside : List KeySpec) (t : Table) :
    (itemEffects s g typed inside t).map (·.1) = items s g t inside := by
  unfold itemEffects items
  simp only [List.map_append, List.map_map]
  split <;> split <;> simp [Function.comp_def]

theorem foldl_addColumnDef (defs : List ColumnDef) (table : TableDef) :
    defs.foldl (fun t c => addColumnDef c t) table =
      { table with columns := table.columns ++ defs } := by
  induction defs generalizing table with
  | nil => simp
  | cons c defs ih =>
    rw [List.foldl_cons, ih]
    unfold addColumnDef
    rw [List.append_assoc]
    rfl

theorem foldl_addKeyDef (keys : List KeySpec) (table : TableDef) :
    keys.foldl (fun t k => addKeyDef k t) table =
      { table with foreignKeys := table.foreignKeys ++ keys.map KeySpec.keyDef } := by
  induction keys generalizing table with
  | nil => simp
  | cons k keys ih =>
    rw [List.foldl_cons, ih]
    unfold addKeyDef
    rw [List.append_assoc]
    rfl

theorem foldl_itemEffects (s : Settings) (g : Graph) (typed : Column → Bool → ColumnDef)
    (inside : List KeySpec) (t : Table) :
    (itemEffects s g typed inside t).foldl (fun d i => i.2 d) { name := t.name, line := 0 } =
      tableDef s g typed inside t := by
  have hcolumns := foldl_addColumnDef
    (t.columns.map fun c => columnDef s g typed (promotesKey t inside) (keyOfColumn? inside c) c)
    { name := t.name, line := 0 }
  rw [List.foldl_map] at hcolumns
  unfold itemEffects tableDef
  rw [List.foldl_append, List.foldl_append, List.foldl_map, hcolumns]
  split
  · split
    · rw [List.foldl_map, foldl_addKeyDef]
      rfl
    · rfl
  · split
    · rw [List.foldl_map, foldl_addKeyDef]
      rfl
    · rfl

section
variable {s : Settings} {g : Graph} {typed : Column → Bool → ColumnDef} {b : Bool}

theorem itemReads_of_mem {inside : List KeySpec} {t : Table} (h : TableReads s g typed b inside t)
    (hk : ∀ k ∈ inside, k.HasActions) (width : Nat) {i : Item × (TableDef → TableDef)}
    (hi : i ∈ itemEffects s g typed inside t) : ItemReads b (i.1.text s width).toList i.2 := by
  unfold itemEffects at hi
  rcases List.mem_append.1 hi with hi | hi
  · rcases List.mem_append.1 hi with hi | hi
    · obtain ⟨c, hc, rfl⟩ := List.mem_map.1 hi
      exact itemReads_column (h.names c hc) (typeReads_clauses (h.columns c hc)) width
    · split at hi
      · obtain rfl := List.mem_singleton.1 hi
        exact itemReads_primaryKey s b _ width
      · cases hi
  · split at hi
    · obtain ⟨k, hmem, rfl⟩ := List.mem_map.1 hi
      exact itemReads_foreignKey s (hk k hmem) b width
    · cases hi

/-- **A table with its indexes reads back**, on whatever line it stands. -/
theorem beginsRead_tableText {keys : List KeySpec} {t : Table}
    (h : TableReads s g typed b (insideKeys s keys t) t) (hk : ∀ k ∈ keys, k.HasActions) :
    BeginsRead b (tableText s g keys t).toList fun n =>
      (tableStatements s g typed keys t).map (Statement.onLine n) := by
  have hinside : ∀ k ∈ insideKeys s keys t, k.HasActions := by
    intro k hmem
    unfold insideKeys at hmem
    split at hmem
    · exact hk k (List.mem_filter.1 hmem).1
    · cases hmem
  have hitems : ∀ i ∈ (itemEffects s g typed (insideKeys s keys t) t).map
      (fun i => (i.1.text s (nameWidth s t), i.2)), ItemReads b i.1.toList i.2 := by
    intro i hi
    obtain ⟨i', hi', rfl⟩ := List.mem_map.1 hi
    exact itemReads_of_mem h hinside _ hi'
  have htable := (statementReads_table s t.name hitems).beginsRead
  rw [List.foldl_map, foldl_itemEffects, List.map_map] at htable
  have hlines : (itemEffects s g typed (insideKeys s keys t) t).map
      ((·.1) ∘ fun i => (i.1.text s (nameWidth s t), i.2)) =
        (items s g t (insideKeys s keys t)).map (Item.text s (nameWidth s t)) := by
    rw [← map_itemEffects s g typed, List.map_map]
    rfl
  rw [hlines] at htable
  have hindexes := statementsRead_join (indexText s t)
    (fun c => [.createIndex t.name [c.title] false]) (indexedColumns t)
    fun c _ => (statementReads_index s t c b).statementsRead rfl
  have hend : Closed b "\n".toList [] := closed_fixed (by decide) b
  have hall := htable.append (hindexes.append (.of_closed hend))
  rw [List.append_nil, ← List.map_eq_flatMap] at hall
  have hlined : ∀ n, (tableStatements s g typed keys t).map (Statement.onLine n) =
      [(Statement.createTable (tableDef s g typed (insideKeys s keys t) t)).onLine n] ++
        (indexedColumns t).map fun c => .createIndex t.name [c.title] false := by
    intro n
    unfold tableStatements
    rw [List.map_cons, List.map_map]
    rfl
  simp only [hlined]
  unfold tableText
  simp only [String.toList_append, List.append_assoc] at hall ⊢
  exact hall

/-- The text of a table begins with `CREATE`. -/
theorem exists_tableText (s : Settings) (g : Graph) (keys : List KeySpec) (t : Table) :
    ∃ more, (tableText s g keys t).toList = 'C' :: more := by
  have hcreate : "CREATE TABLE IF NOT EXISTS " = "C" ++ "REATE TABLE IF NOT EXISTS " := by decide
  unfold tableText
  dsimp only
  rw [hcreate]
  simp only [String.toList_append, List.append_assoc]
  exact ⟨_, rfl⟩

/-- A part that begins with a statement, and a text behind it. -/
theorem BeginsRead.ofTokens {xs ys : List Char} {ss : Nat → List Statement}
    (h : BeginsRead b ('C' :: xs) ss) {n : Nat} {ps : Input}
    (hps : ps.map (·.token) = tokensOf b ('C' :: xs)) (rest : Input)
    (hplaced : ps ++ rest = placed b n ('C' :: xs ++ ys)) :
    Script.ofTokens (ps ++ rest) = preceded (ss n) (Script.ofTokens rest) := by
  obtain ⟨t, ts, hts, hread⟩ := h
  have htext := hts []
  rw [List.append_nil, tokensOf_nil, List.append_nil] at htext
  rw [htext] at hps
  obtain ⟨p, qs, rfl, rfl, hqs⟩ := List.map_eq_cons_iff.1 hps
  have hline : p.line = n := line_of_placed_c hplaced.symm
  rw [List.cons_append, ← hline]
  exact hread p.line qs rest hqs

/-- **Tables one after the other**, each on the line that the text before it ends on. -/
theorem ofTokens_tables {tail : List Char} {ss : List Statement} (htail : StatementsRead b tail ss)
    {tables : List Table} (h : ∀ t ∈ tables, TableReads s g typed b (insideKeys s (keysOf g) t) t)
    (hk : ∀ k ∈ keysOf g, k.HasActions) (n : Nat) :
    Script.ofTokens (placed b n
        (tables.flatMap (fun t => (tableText s g (keysOf g) t).toList) ++ tail)) =
      { statements := tablesFrom s g typed n tables ++ ss } := by
  induction tables generalizing n with
  | nil => exact htail.ofTokens (placed_token b n tail)
  | cons t tables ih =>
    have htable := beginsRead_tableText (h t (.head _)) hk
    have hmore := ih fun t' ht' => h t' (.tail _ ht')
    obtain ⟨xs, hxs⟩ := exists_tableText s g (keysOf g) t
    rw [List.flatMap_cons, tablesFrom, List.append_assoc, List.append_assoc]
    rw [hxs] at htable ⊢
    generalize hrest : tables.flatMap (fun t => (tableText s g (keysOf g) t).toList) ++ tail = rest
    obtain ⟨t', ts, hts, -⟩ := id htable
    have htokens := hts []
    rw [List.append_nil, tokensOf_nil, List.append_nil] at htokens
    cases tables with
    | nil =>
      have hmap := placed_token b n ('C' :: xs ++ rest)
      rw [hts, ← htokens, List.append_assoc] at hmap
      obtain ⟨ps, qs, hplaced, hps, hqs⟩ := List.map_eq_append_iff.1 hmap
      obtain rfl : tail = rest := hrest
      rw [hplaced, htable.ofTokens hps qs hplaced.symm, htail.ofTokens hqs]
      rfl
    | cons next tables =>
      obtain ⟨ys, hys⟩ := exists_tableText s g (keysOf g) next
      obtain ⟨zs, hzs⟩ : ∃ zs, rest = 'C' :: zs := by
        rw [← hrest, List.flatMap_cons, hys]
        exact ⟨_, rfl⟩
      rw [hzs]
      obtain ⟨ps, hps, hplaced⟩ := placed_append hts n zs
      rw [← htokens] at hps
      rw [hplaced, htable.ofTokens hps _ hplaced.symm, ← hzs, ← hrest, hmore]
      rfl

/-! ## Scripts -/

theorem header_eq (s : Settings) (time : String) :
    header s time = ("-- Generated by schemasync\n-- Dialect: " ++ s.dialect.name ++ "\n") ++
      ("--" ++ (" Generated at: " ++ time) ++ "\n") ++ "\n" := by
  have hmark : "\n-- Generated at: " = "\n" ++ ("--" ++ " Generated at: ") := by decide
  have hend : "\n\n" = "\n" ++ "\n" := by decide
  unfold header
  rw [hmark, hend]
  simp only [String.append_assoc]

/-- The header is made of comments. -/
theorem closed_header (s : Settings) {time : String} (h : '\n' ∉ time.toList) (b : Bool) :
    Closed b (header s time).toList [] := by
  have hdialect : Closed b
      ("-- Generated by schemasync\n-- Dialect: " ++ s.dialect.name ++ "\n").toList [] := by
    cases s.dialect <;> exact closed_fixed (by decide) b
  have htime : '\n' ∉ (" Generated at: " ++ time).toList := by
    rw [String.toList_append]
    intro hm
    rcases List.mem_append.1 hm with hm | hm
    · exact absurd hm (by decide)
    · exact h hm
  have hstamp : Closed b ("--" ++ (" Generated at: " ++ time) ++ "\n").toList [] := by
    rw [String.toList_append, String.toList_append]
    exact closed_comment htime b
  have hend : Closed b "\n".toList [] := closed_fixed (by decide) b
  rw [header_eq, String.toList_append, String.toList_append]
  exact (hdialect.append hstamp).append hend

theorem statementsRead_enumSection (h : Readable s g typed b) :
    StatementsRead b (enumSection s g).toList (enumStatements s g) := by
  unfold enumSection enumStatements
  by_cases hd : s.dialect = .postgresql
  · rw [if_pos hd]
    by_cases he : g.enums = []
    · rw [he, if_neg (by simp)]
      exact .of_closed .nil
    · have hescapes : s.dialect.escapesBackslash = false := by rw [hd]; rfl
      have henums := statementsRead_join (enumText s) (fun e => [.createType e.name e.values]) g.enums
        fun e hm => (statementReads_enum hescapes
          ((h.values hd).imp_right fun h => h e hm)).statementsRead rfl
      have hend : Closed b "\n".toList [] := closed_fixed (by decide) b
      have hall := henums.append (.of_closed hend)
      rw [List.append_nil, ← List.map_eq_flatMap] at hall
      rw [if_pos ⟨hd, by simpa using he⟩, String.toList_append]
      exact hall
  · rw [if_neg hd, if_neg fun h => hd h.1]
    exact .of_closed .nil

theorem map_constraintNames (used : List String) (keys : List KeySpec) :
    (constraintNames used keys).map (·.2) = keys := by
  induction keys generalizing used with
  | nil => rfl
  | cons k keys ih => exact congrArg (k :: ·) (ih _)

theorem statementsRead_keySection (h : ∀ k ∈ keysOf g, k.HasActions) :
    StatementsRead b (keySection s (keysOf g)).toList (keyStatements s g) := by
  unfold keySection keyStatements
  generalize keysOf g = keys at h
  cases hi : inlinesKeys s with
  | true => exact .of_closed .nil
  | false =>
    cases keys with
    | nil => exact .of_closed .nil
    | cons k keys =>
      have hkeys := statementsRead_join (b := b) (fun nk => addKeyText s nk.1 nk.2)
        (fun nk => [.alterForeignKey nk.2.sourceTable nk.2.keyDef])
        (constraintNames [] (k :: keys))
        fun nk hm => (statementReads_addKey s nk.1
          (h nk.2 (map_constraintNames [] (k :: keys) ▸ List.mem_map_of_mem hm)) b).statementsRead rfl
      have hmark : Closed b (keySectionMark ++ "\n").toList [] :=
        closed_fixed (by decide) b
      have hall := (StatementsRead.of_closed hmark).append hkeys
      have hmap : (constraintNames [] (k :: keys)).flatMap
          (fun nk => [Statement.alterForeignKey nk.2.sourceTable nk.2.keyDef]) =
            (k :: keys).map fun k => .alterForeignKey k.sourceTable k.keyDef := by
        rw [← List.map_eq_flatMap, ← map_constraintNames [] (k :: keys), List.map_map,
          map_constraintNames]
        rfl
      rw [List.nil_append, hmap, ← String.toList_append] at hall
      exact hall

theorem toList_script (s : Settings) (time : String) (g : Graph) :
    (script s time g).toList = (header s time ++ enumSection s g).toList ++
      (g.tables.flatMap (fun t => (tableText s g (keysOf g) t).toList) ++
        (keySection s (keysOf g)).toList) := by
  unfold script
  simp only [String.toList_append, toList_join_empty, List.flatMap_map, List.append_assoc]

/-- **The text of a graph is read as its statements**, on the lines that they stand on. -/
theorem ofText_script_lines {time : String} (ht : '\n' ∉ time.toList)
    (h : Readable s g typed (Dialect.detect (script s time g)).escapesBackslash) :
    Script.ofText (script s time g) =
      { statements := enumStatements s g ++
          tablesFrom s g typed (lineAfter 1 (header s time ++ enumSection s g).toList) g.tables ++
            keyStatements s g } := by
  unfold Script.ofText tokens
  generalize (Dialect.detect (script s time g)).escapesBackslash = b at h
  change Script.ofTokens (placed b 1 (script s time g).toList) = _
  rw [toList_script]
  have hkeys := statementsRead_keySection (s := s) (b := b) h.keys
  have hstart : StatementsRead b (header s time ++ enumSection s g).toList (enumStatements s g) := by
    rw [String.toList_append]
    exact (StatementsRead.of_closed (closed_header s ht b)).append (statementsRead_enumSection h)
  have htables := ofTokens_tables hkeys h.tables h.keys
    (lineAfter 1 (header s time ++ enumSection s g).toList)
  generalize (header s time ++ enumSection s g).toList = start at hstart htables ⊢
  cases hg : g.tables with
  | nil =>
    have hall := (hstart.append hkeys).ofTokens (placed_token b 1 _)
    rw [tablesFrom, List.append_nil]
    exact hall
  | cons t tables =>
    obtain ⟨xs, hxs⟩ := exists_tableText s g (keysOf g) t
    rw [hg, List.flatMap_cons, hxs, List.cons_append, List.cons_append] at htables
    rw [List.flatMap_cons, hxs, List.cons_append, List.cons_append]
    obtain ⟨ts, hts, hread⟩ := hstart
    obtain ⟨ps, hps, hplaced⟩ := placed_append hts 1 _
    rw [hplaced, hread _ _ hps, htables]
    unfold preceded
    rw [List.append_assoc]

/-- The statements of a graph stand on no line. -/
theorem reline_tablesFrom (s : Settings) (g : Graph) (typed : Column → Bool → ColumnDef) (n : Nat)
    (tables : List Table) :
    (tablesFrom s g typed n tables).map (Statement.reline fun _ => 0) =
      tables.flatMap (tableStatements s g typed (keysOf g)) := by
  induction tables generalizing n with
  | nil => rfl
  | cons t tables ih =>
    rw [tablesFrom, List.map_append, ih, List.flatMap_cons]
    unfold tableStatements
    simp only [List.map_cons, List.map_map]
    rfl

/-- **The text of a graph is read as its statements**, but for the lines. -/
theorem ofText_script {time : String} (ht : '\n' ∉ time.toList)
    (h : Readable s g typed (Dialect.detect (script s time g)).escapesBackslash) :
    (Script.ofText (script s time g)).reline (fun _ => 0) =
      { statements := statementsOf s g typed } := by
  have henums : (enumStatements s g).map (Statement.reline fun _ => 0) = enumStatements s g := by
    unfold enumStatements
    split
    · rw [List.map_map]
      rfl
    · rfl
  have hkeys : (keyStatements s g).map (Statement.reline fun _ => 0) = keyStatements s g := by
    unfold keyStatements
    split
    · rfl
    · rw [List.map_map]
      rfl
  rw [ofText_script_lines ht h]
  unfold Script.reline statementsOf
  dsimp only
  rw [List.map_append, List.map_append, henums, hkeys, reline_tablesFrom]
  rfl

end

/-! ## The dialect of a text -/

theorem escapesBackslash_eq_false {d : Dialect} (h : d ≠ .mysql) : d.escapesBackslash = false := by
  cases d with
  | mysql => exact absurd rfl h
  | _ => rfl

/-- The small form of a text names the dialect that it was written for. -/
theorem holds_dialect_script (s : Settings) (time : String) (g : Graph) :
    Text.holds ("-- dialect: " ++ s.dialect.name).toList
      (Text.lowerFrom [] (script s time g).toList) = true := by
  obtain ⟨rest, htext⟩ : ∃ rest, (script s time g).toList =
      ("-- Generated by schemasync\n-- Dialect: " ++ s.dialect.name).toList ++ rest := by
    unfold script header
    simp only [String.toList_append, List.append_assoc]
    exact ⟨_, rfl⟩
  have hascii : (("-- Generated by schemasync\n-- Dialect: " ++ s.dialect.name).toList.all
      fun c => decide (c.toNat < 128)) = true := by
    cases s.dialect <;> decide
  have hsmall : ("-- Generated by schemasync\n-- Dialect: " ++ s.dialect.name).toList.map
      Char.toLower =
        "-- generated by schemasync\n".toList ++ ("-- dialect: " ++ s.dialect.name).toList := by
    cases s.dialect <;> decide
  rw [htext, Text.lowerFrom_ascii_append
    (fun c hc => of_decide_eq_true (List.all_eq_true.1 hascii c hc)), hsmall, List.append_assoc]
  exact Text.holds_iff.2 ⟨_, _, rfl⟩

/-- A text for MySQL is taken for one. -/
theorem detect_script_mysql {s : Settings} (hs : s.dialect = .mysql) (time : String) (g : Graph) :
    Dialect.detect (script s time g) = .mysql := by
  have hheader := holds_dialect_script s time g
  have hname : "-- dialect: " ++ s.dialect.name = "-- dialect: mysql" := by
    rw [hs]
    decide
  rw [hname] at hheader
  unfold Dialect.detect Dialect.ofChars
  dsimp only
  simp only [Dialect.signs, List.find?_cons, Dialect.Sign.isIn, hheader]

/-- **The header tells the dialect**: a text for PostgreSQL is taken for one of MySQL only if it
holds words that say so and count before the header. -/
theorem detect_script_eq_mysql_iff {s : Settings} (hs : s.dialect = .postgresql) (time : String)
    (g : Graph) : Dialect.detect (script s time g) = .mysql ↔
      ∃ phrase ∈ ["-- dialect: mysql", "mysql dump"],
        Text.holds phrase.toList (Text.lowerFrom [] (script s time g).toList) = true := by
  have hheader := holds_dialect_script s time g
  have hname : "-- dialect: " ++ s.dialect.name = "-- dialect: postgresql" := by
    rw [hs]
    decide
  rw [hname] at hheader
  unfold Dialect.detect Dialect.ofChars
  dsimp only
  generalize Text.lowerFrom [] (script s time g).toList = small at *
  simp only [Dialect.signs, List.find?_cons, Dialect.Sign.isIn, hheader, List.mem_cons,
    List.not_mem_nil, or_false, exists_eq_or_imp, exists_eq_left]
  cases Text.holds "-- dialect: mysql".toList small <;>
    cases Text.holds "mysql dump".toList small <;>
      cases Text.holds "-- dialect: sqlite".toList small <;> decide

end DdlGraph.Ddl
