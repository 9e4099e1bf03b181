import DdlGraph.Proofs.StatementText
import DdlGraph.Proofs.TypeText

/-!
# Types read back in every dialect

A built-in type is written as a name of the dialect or as its own name in capitals, and in both
cases it is read as the type of a column and nothing else. An enumeration that a dialect cannot
declare is written as the list of its values, and this list comes back.

* `BuiltIn.exists_names`, `names_counting`: the text of a built-in type;
* `typeReads_enumList`, `typeReads_enumCheck`: the values of an enumeration in MySQL and SQLite;
* `BuiltIn.exists_typeReads`: the type of a column that is no enumeration.
-/

namespace DdlGraph.Ddl

open DdlGraph.Sql

/-! ## Names of types -/

/-- **Name of a type**: the text is read as the type of a column, and as nothing else. -/
def Names (text typeName : String) (params : List String) : Prop :=
  ∀ b title, TypeReads b text.toList title { name := title, typeName, params }

theorem names_word {text word : String} {n : Nat} {params : List String}
    (h : spells Lexeme.isWord word [.ident word] = true) (hp : ∀ p ∈ params, IsDigits p)
    (ht : text.toList = typeText word params n) : Names text (arrayOf word n) params := by
  intro b title
  rw [ht]
  exact typeReads_word h n hp b title

theorem arrayOf_zero (word : String) : arrayOf word 0 = word := by
  rw [← String.toList_inj, toList_arrayOf]
  exact List.append_nil _

/-- The names that dialects have for types of other names, in two parts: a word and lengths. -/
def ownNames : List (String × List String) :=
  [("TIMESTAMP", []), ("SMALLINT", []), ("BYTEA", []), ("TEXT", []), ("VARCHAR", ["36"]),
    ("VARCHAR", ["255"]), ("INT", []), ("BIGINT", []), ("BOOLEAN", []), ("JSON", []), ("BLOB", []),
    ("FLOAT", []), ("VARCHAR", ["45"]), ("VARCHAR", ["64"]), ("INTEGER", []), ("REAL", [])]

/-- The text is a name that a dialect has for a type of another name. -/
def IsOwnName (text : String) : Prop :=
  text = "DOUBLE PRECISION" ∨ ∃ x ∈ ownNames, text.toList = typeText x.1 x.2 0

theorem isOwnName_of_mem {text : String}
    (h : text ∈ "DOUBLE PRECISION" :: ownNames.map fun x => .ofList (typeText x.1 x.2 0)) :
    IsOwnName text := by
  rcases List.mem_cons.1 h with h | h
  · exact .inl h
  · obtain ⟨x, hx, rfl⟩ := List.mem_map.1 h
    exact .inr ⟨x, hx, String.toList_ofList⟩

theorem isOwnName_postgres {name text : String} (h : postgresType? name = some text) :
    IsOwnName text := by
  unfold postgresType? at h
  apply isOwnName_of_mem
  split at h
  all_goals cases h
  all_goals decide

theorem isOwnName_mysql {name text : String} {params : List String}
    (h : mysqlType? name params = some text) : IsOwnName text := by
  unfold mysqlType? at h
  apply isOwnName_of_mem
  repeat' split at h
  all_goals cases h
  all_goals decide

theorem isOwnName_sqlite {name text : String} (h : sqliteType? name = some text) :
    IsOwnName text := by
  unfold sqliteType? at h
  apply isOwnName_of_mem
  repeat' split at h
  all_goals cases h
  all_goals decide

/-- The names of dialects are words with lengths, and do not count up. -/
theorem ownNames_word : ∀ x ∈ ownNames, spells Lexeme.isWord x.1 [.ident x.1] = true ∧
    (∀ p ∈ x.2, IsDigits p) ∧ (BaseType.normalize x.1).serial = false := by
  decide +kernel

/-- A name of a dialect names a type, which does not count up. -/
theorem IsOwnName.exists_names {text : String} (h : IsOwnName text) :
    ∃ typeName params, Names text typeName params ∧
      (BaseType.normalize typeName).serial = false := by
  rcases h with rfl | ⟨x, hx, ht⟩
  · have hserial : (BaseType.normalize "DOUBLE PRECISION").serial = false := by decide +kernel
    exact ⟨_, [], fun b title => typeReads_double b title, hserial⟩
  · obtain ⟨hword, hdigits, hserial⟩ := ownNames_word x hx
    refine ⟨_, x.2, names_word hword hdigits ht, ?_⟩
    rw [arrayOf_zero]
    exact hserial

/-! ## Built-in types -/

/-- The types that are known by name. The one that lists values is none of them. -/
def builtInTypes : List String :=
  knownTypes.erase "enum"

/-- **Column of a built-in type**, with any number of array marks and with lengths in digits. -/
structure BuiltIn (base : String) (n : Nat) (c : Column) : Prop where
  mem : base ∈ builtInTypes
  type : Text.lower c.dataType = arrayOf base n
  params : ∀ p ∈ c.params, IsDigits p

/-- What the names of built-in types have in common. -/
theorem builtIn_word {base : String} (h : base ∈ builtInTypes) :
    base.toList.head? ≠ some 'e' ∧ base ≠ "" ∧ (Text.upper base).toList.getLast? ≠ some ']' ∧
      spells Lexeme.isWord (Text.upper base) [.ident (Text.upper base)] = true := by
  have hall : ∀ base ∈ builtInTypes, base.toList.head? ≠ some 'e' ∧ base ≠ "" ∧
      (Text.upper base).toList.getLast? ≠ some ']' ∧
        spells Lexeme.isWord (Text.upper base) [.ident (Text.upper base)] = true := by
    decide +kernel
  exact hall base h

theorem BuiltIn.enumName? {base : String} {n : Nat} {c : Column} (h : BuiltIn base n c) :
    c.enumName? = none := by
  apply enumName?_of_head
  intro hhead
  obtain ⟨rest, hlist⟩ := List.head?_eq_some_iff.1 hhead
  obtain ⟨hbase, hne, -⟩ := builtIn_word h.mem
  have hlower : (Text.lower c.dataType).toList = 'e' :: Text.lowerFrom ['e'] rest := by
    unfold Text.lower
    rw [String.toList_ofList, hlist, Text.lowerFrom_cons]
    rfl
  obtain ⟨x, xs, hx⟩ := List.exists_cons_of_ne_nil (mt String.toList_eq_nil_iff.1 hne)
  rw [h.type, toList_arrayOf, hx] at hlower
  rw [hx] at hbase
  exact hbase (congrArg some (List.cons.inj hlower).1)

/-- **The text of a built-in type**: a name of the dialect, or the type in capitals. -/
theorem BuiltIn.renderType_cases {base : String} {n : Nat} {c : Column} (h : BuiltIn base n c)
    (dialect : Dialect) : IsOwnName (renderType c.dataType c.params dialect) ∨
      (renderType c.dataType c.params dialect).toList =
        typeText (Text.upper base) c.params n := by
  obtain ⟨-, -, hends, -⟩ := builtIn_word h.mem
  have hcases : ∀ own : Option String, (∀ text, own = some text → IsOwnName text) →
      IsOwnName (own.getD (withParams (Text.upper (arrayOf base n)) c.params)) ∨
        (own.getD (withParams (Text.upper (arrayOf base n)) c.params)).toList =
          typeText (Text.upper base) c.params n := by
    intro own hown
    cases own with
    | some text => exact .inl (hown text rfl)
    | none =>
      rw [Option.getD_none, upper_arrayOf]
      exact .inr (withParams_arrayOf hends n c.params)
  unfold renderType
  dsimp only
  rw [h.type]
  cases dialect with
  | postgresql => exact hcases _ fun _ => isOwnName_postgres
  | mysql => exact hcases _ fun _ => isOwnName_mysql
  | sqlite => exact hcases _ fun _ => isOwnName_sqlite

/-- **The name of a built-in type in a dialect**: one of its own, or the type in capitals. -/
theorem BuiltIn.exists_names {base : String} {n : Nat} {c : Column} (h : BuiltIn base n c)
    (dialect : Dialect) : ∃ typeName params,
      Names (renderType c.dataType c.params dialect) typeName params ∧
        ((BaseType.normalize typeName).serial = false ∨
          typeName = arrayOf (Text.upper base) n) := by
  rcases h.renderType_cases dialect with hown | htext
  · obtain ⟨typeName, params, hnames, hserial⟩ := hown.exists_names
    exact ⟨typeName, params, hnames, .inl hserial⟩
  · exact ⟨_, _, names_word (builtIn_word h.mem).2.2.2 h.params htext, .inr rfl⟩

/-- The names of types for columns that count up. -/
def countingNames : List String :=
  ["SERIAL", "BIGSERIAL", "SMALLSERIAL", "INT", "BIGINT", "SMALLINT", "INTEGER"]

theorem countingNames_word :
    ∀ word ∈ countingNames, spells Lexeme.isWord word [.ident word] = true := by
  decide +kernel

theorem renderCountingType_mem (base : String) (dialect : Dialect) :
    renderCountingType base dialect ∈ countingNames := by
  unfold renderCountingType
  cases dialect with
  | sqlite =>
    show "INTEGER" ∈ countingNames
    decide
  | _ =>
    dsimp only
    split
    all_goals decide

theorem names_counting (base : String) (dialect : Dialect) :
    Names (renderCountingType base dialect) (renderCountingType base dialect) [] := by
  have hword := countingNames_word _ (renderCountingType_mem base dialect)
  generalize renderCountingType base dialect = word at hword
  have hnames : Names word (arrayOf word 0) [] :=
    names_word hword nofun (by simp [typeText, brackets])
  rw [arrayOf_zero] at hnames
  exact hnames

/-- Only PostgreSQL has types that count up by themselves. -/
theorem serial_counting (base : String) {dialect : Dialect} (h : dialect ≠ .postgresql) :
    (BaseType.normalize (renderCountingType base dialect)).serial = false := by
  have hwords : ∀ word ∈ ["INT", "BIGINT", "SMALLINT", "INTEGER"],
      (BaseType.normalize word).serial = false := by
    decide +kernel
  apply hwords
  unfold renderCountingType
  cases dialect with
  | postgresql => exact absurd rfl h
  | mysql =>
    dsimp only
    split
    all_goals decide
  | sqlite =>
    show "INTEGER" ∈ ["INT", "BIGINT", "SMALLINT", "INTEGER"]
    decide

/-! ## Columns -/

/-- **The type of a column that is no enumeration**, in every dialect. -/
theorem BuiltIn.exists_typeReads {base : String} {n : Nat} {c : Column} (h : BuiltIn base n c)
    (s : Settings) (g : Graph) (keyHere : Bool) :
    ∃ d, (∀ b, TypeReads b ((typeClause s g c keyHere).text s).toList c.title d) ∧
      TypeSays (typeClause s g c keyHere) c d ∧ d.inlineValues = none ∧
        (s.dialect = .mysql → d.autoIncrement = countsUp c) ∧
          (s.dialect ≠ .postgresql → (BaseType.normalize d.typeName).serial = false ∨
            d.typeName = arrayOf (Text.upper base) n) := by
  unfold typeClause
  rw [h.enumName?]
  dsimp only
  cases hup : countsUp c with
  | false =>
    obtain ⟨typeName, params, hnames, hserial⟩ := h.exists_names s.dialect
    rw [if_neg Bool.false_ne_true]
    exact ⟨_, fun b => hnames b c.title, ⟨rfl, rfl, rfl, rfl, rfl, rfl⟩, rfl, fun _ => rfl,
      fun _ => hserial⟩
  | true =>
    have hnames := names_counting c.dataType s.dialect
    have hserial := @serial_counting c.dataType s.dialect
    rw [if_pos rfl]
    generalize renderCountingType c.dataType s.dialect = word at hnames hserial
    cases hd : s.dialect with
    | postgresql =>
      exact ⟨_, fun b => hnames b c.title, ⟨rfl, rfl, rfl, rfl, rfl, rfl⟩, rfl, nofun,
        fun hne => absurd rfl hne⟩
    | mysql =>
      have hreads : ∀ b, TypeReads b (word ++ " AUTO_INCREMENT").toList c.title
          { name := c.title, typeName := word, autoIncrement := true } := by
        intro b
        have hmark : " AUTO_INCREMENT".toList = " ".toList ++ "AUTO_INCREMENT".toList := by decide
        rw [String.toList_append, hmark, ← List.append_assoc]
        exact (hnames b c.title).modify (modifies_autoIncrement b)
      exact ⟨_, hreads, ⟨rfl, rfl, rfl, rfl, rfl, rfl⟩, rfl, fun _ => rfl,
        fun _ => .inl (hserial (by rw [hd]; decide))⟩
    | sqlite =>
      cases keyHere with
      | false =>
        exact ⟨_, fun b => hnames b c.title, ⟨rfl, rfl, rfl, rfl, rfl, rfl⟩, rfl, nofun,
          fun _ => .inl (hserial (by rw [hd]; decide))⟩
      | true =>
        have hreads : ∀ b, TypeReads b (word ++ " PRIMARY KEY AUTOINCREMENT").toList c.title
            { name := c.title, typeName := word, primary := true, autoIncrement := true } := by
          intro b
          have hmark : " PRIMARY KEY AUTOINCREMENT".toList =
              " ".toList ++ "PRIMARY KEY AUTOINCREMENT".toList := by decide
          rw [String.toList_append, hmark, ← List.append_assoc]
          exact (hnames b c.title).modify (modifies_countingKey b)
        exact ⟨_, hreads, ⟨rfl, rfl, rfl, rfl, rfl, rfl⟩, rfl, nofun,
          fun _ => .inl (hserial (by rw [hd]; decide))⟩

/-! ## Enumerations -/

section
variable {values : List String} {b : Bool}

theorem reads_stringList {dialect : Dialect}
    (h : ∀ v ∈ values, '\\' ∈ v.toList → dialect.escapesBackslash = b) :
    Reads b (stringList dialect values).toList
      ([Token.comma].intercalate (values.map fun v => [.str v])) :=
  reads_join (stringLiteral dialect) (fun v => [.str v])
    fun v (hv : v ∈ values) => reads_stringLiteral (h v hv)

/-- **Listed values** as the type of a column. -/
theorem typeReads_enumList {dialect : Dialect}
    (h : ∀ v ∈ values, '\\' ∈ v.toList → dialect.escapesBackslash = b) (title : String) :
    TypeReads b ("ENUM(" ++ stringList dialect values ++ ")").toList title
      { name := title, typeName := "enum", inlineValues := some values } := by
  have hopen : Closed b "ENUM(".toList [.keyword .enum, .lparen] :=
    closed_fixed (by decide) b
  have hclose : Closed b ")".toList [.rparen] := closed_fixed (by decide) b
  rw [String.toList_append, String.toList_append]
  refine ⟨_, ((hopen.append_reads (reads_stringList h)).append_closed hclose (by decide)
    (by decide)).reads, fun rest _ => ?_⟩
  simp only [row_append, row_cons, row_nil, List.cons_append, List.nil_append, List.append_assoc]
  unfold column
  change ((stringItems [] _).bind _).bind modifiers = _
  rw [stringItems_row]
  rfl

/-- **Listed values** as a check of the column on itself. -/
theorem typeReads_enumCheck {dialect : Dialect}
    (h : ∀ v ∈ values, '\\' ∈ v.toList → dialect.escapesBackslash = b) (s : Settings)
    (title : String) :
    TypeReads b ("TEXT CHECK (" ++ quote s title ++ " IN (" ++ stringList dialect values ++
        "))").toList title
      { name := title, typeName := "TEXT", inlineValues := some values } := by
  have hopen : Closed b "TEXT CHECK (".toList [.ident "TEXT", .keyword .check, .lparen] :=
    closed_fixed (by decide) b
  have hin : Closed b " IN (".toList [.ident "IN", .lparen] := closed_fixed (by decide) b
  have hclose : Closed b "))".toList [.rparen, .rparen] := closed_fixed (by decide) b
  have hname := (hopen.append_reads (reads_quote s title b)).append_closed hin (by decide)
    (by decide)
  simp only [String.toList_append]
  refine ⟨_, ((hname.append_reads (reads_stringList h)).append_closed hclose (by decide)
    (by decide)).reads, fun rest _ => ?_⟩
  simp only [row_append, row_cons, row_nil, List.cons_append, List.nil_append, List.append_assoc]
  have hlisted : listedValues? title (⟨.lparen, 0⟩ :: ⟨nameToken s title, 0⟩ :: ⟨.ident "IN", 0⟩ ::
      ⟨.lparen, 0⟩ :: (row ([Token.comma].intercalate (values.map fun v => [.str v])) ++
        ⟨.rparen, 0⟩ :: ⟨.rparen, 0⟩ :: rest)) = some (values, rest) := by
    have hword : ((nameToken s title).nameText?.any (Text.sameAscii · title) &&
        (Token.ident "IN").isWord "in") = true := by
      rw [nameText?_nameToken]
      have hsame : Text.sameAscii title title = true := sameAscii_iff.2 rfl
      simp only [Option.any_some, hsame, Bool.true_and]
      decide
    have hlist : Sql.stringList (⟨.lparen, 0⟩ ::
        (row ([Token.comma].intercalate (values.map fun v => [.str v])) ++
          ⟨.rparen, 0⟩ :: ⟨.rparen, 0⟩ :: rest)) = .ok values (⟨.rparen, 0⟩ :: rest) :=
      stringItems_row values [] (⟨.rparen, 0⟩ :: rest)
    unfold listedValues?
    dsimp only
    rw [if_pos hword, hlist]
    rfl
  have hends : ∀ ts, Ends (⟨.keyword .check, 0⟩ :: ts) := by
    intro ts
    show Token.keyword .check ∈ partEnds
    decide
  refine (column_of_typeTail (.inl rfl) (c := { name := title, typeName := "TEXT" })
    (typeTail_end (hends _) _)).trans ?_
  refine modifiers_step (by decide) ?_
  change Step.ok (check _ _).1 (check _ _).2 = _
  unfold check
  rw [hlisted]

end

end DdlGraph.Ddl
