import DdlGraph.Sql.Statement.Reader

/-!
# What is read

Each reader says here what it can return, and what that was read from: the type of a column, a
modifier, an item of a table, a statement. What modifiers and items keep, the loops over them keep.
So whatever refers to columns in a script names at least one of them, and so does whatever is made
of columns.

* `modifier_sets`, `tableItem_adds`, `statement_reads`: what is returned;
* `modifiers_keep`, `tableItems_keep`: what the loops keep;
* `Script.exists_statement`: where the statements of a script are read;
* `Script.hasColumns`: they have columns.
-/

namespace DdlGraph.Sql

/-! ## Columns -/

section
variable {c c' : ColumnDef} {ts : Input}

/-- The rest of a type changes the type alone. -/
theorem typeTail_reads (c : ColumnDef) (ts : Input) : ∀ c', (typeTail c ts).result = .ok c' →
    ∃ typeName params, c' = { c with typeName, params } := by
  fun_induction typeTail c ts with
  | case1 | case4 | case9 | case11 =>
    rintro _ h
    cases h
    exact ⟨_, _, rfl⟩
  | case8 =>
    rintro _ h
    cases h
  | _ => assumption

/-- A type changes the type and its values. -/
theorem dataType_reads (h : (dataType c ts).result = .ok c') :
    ∃ typeName params inlineValues, c' = { c with typeName, params, inlineValues } := by
  unfold dataType at h
  split at h
  · cases h
    exact ⟨_, _, _, rfl⟩
  · split at h
    · obtain ⟨values, -, h⟩ := Step.of_bind_ok h
      cases h
      exact ⟨_, _, _, rfl⟩
    · obtain ⟨typeName, params, rfl⟩ := typeTail_reads _ _ c' h
      exact ⟨_, _, _, rfl⟩
    · obtain ⟨typeName, params, rfl⟩ := typeTail_reads _ _ c' h
      exact ⟨_, _, _, rfl⟩
    · cases h
      exact ⟨_, _, _, rfl⟩

/-- **What a modifier does to a column**: it leaves the name alone, and the reference too unless it
has read another one. -/
inductive ModifierSets (c : ColumnDef) : ColumnDef → Prop
  | mark {c' : ColumnDef} (hname : c'.name = c.name) (hreference : c'.reference = c.reference) :
    ModifierSets c c'
  | reference {r : Reference} {ts : Input} (h : (reference ts).result = .ok r) :
    ModifierSets c { c with reference := some r }

theorem modifier_sets {t : Token} (h : (modifier c t ts).result = .ok c') : ModifierSets c c' := by
  unfold modifier at h
  split at h
  case h_2 | h_6 | h_10 => split at h <;> (cases h; exact .mark rfl rfl)
  case h_5 =>
    obtain ⟨r, hr, h⟩ := Step.of_bind_ok h
    cases h
    exact .reference hr
  case h_8 =>
    cases h
    unfold check
    split <;> exact .mark rfl rfl
  all_goals
    cases h
    exact .mark rfl rfl

theorem ModifierSets.name (h : ModifierSets c c') : c'.name = c.name := by
  cases h with
  | mark hname => exact hname
  | reference => rfl

/-- What every modifier keeps, all of them keep. -/
theorem modifiers_keep {P : ColumnDef → Prop}
    (hP : ∀ {c c' : ColumnDef}, ModifierSets c c' → P c → P c')
    (h : (modifiers c ts).result = .ok c') (hc : P c) : P c' := by
  fun_induction modifiers c ts with
  | case1 | case2 =>
    cases h
    exact hc
  | case3 c p rest _ next rest' hnext ih =>
    exact ih h (hP (modifier_sets (congrArg Step.result hnext)) hc)
  | case4 => cases h

/-- What a column refers to has columns. -/
def ColumnDef.RefersToColumns (c : ColumnDef) : Prop :=
  ∀ r ∈ c.reference, r.columns ≠ []

theorem ModifierSets.refersToColumns (h : ModifierSets c c') (hc : c.RefersToColumns) :
    c'.RefersToColumns := by
  cases h with
  | mark _ hreference =>
    unfold ColumnDef.RefersToColumns
    rw [hreference]
    exact hc
  | reference hr =>
    rintro _ ⟨⟩
    exact reference_columns_ne_nil hr

/-- **A column that is read** has what it refers to spelled out. -/
theorem column_refersToColumns {name : String} (h : (column name ts).result = .ok c) :
    c.RefersToColumns := by
  obtain ⟨typed, htype, h⟩ := Step.of_bind_ok h
  refine modifiers_keep ModifierSets.refersToColumns h ?_
  obtain ⟨typeName, params, inlineValues, rfl⟩ := dataType_reads htype
  exact fun r hr => nomatch hr

end

/-! ## Items -/

/-- **What an item adds to a table**, and what that was read from. -/
inductive ItemAdds (table : TableDef) : TableDef → Prop
  | nothing : ItemAdds table table
  | primaryKey (columns : List String) :
    ItemAdds table { table with primaryKey := table.primaryKey ++ columns }
  | foreignKey {key : KeyDef} {ts : Input} (h : (foreignKey ts).result = .ok key) :
    ItemAdds table { table with foreignKeys := table.foreignKeys ++ [key] }
  | unique {columns : List String} (h : columns ≠ []) :
    ItemAdds table { table with unique := table.unique ++ [columns] }
  | column {name : String} {c : ColumnDef} {ts : Input} (h : (column name ts).result = .ok c) :
    ItemAdds table { table with columns := table.columns ++ [c] }

section
variable {table table' : TableDef} {ts : Input}

theorem tableItem_adds {t : Token} (h : (tableItem table t ts).result = .ok table') :
    ItemAdds table table' := by
  unfold tableItem at h
  split at h
  · cases h
    exact .nothing
  · obtain ⟨columns, -, h⟩ := Step.of_bind_ok h
    cases h
    exact .primaryKey columns
  · obtain ⟨key, hkey, h⟩ := Step.of_bind_ok h
    cases h
    exact .foreignKey hkey
  · obtain ⟨columns, -, h⟩ := Step.of_bind_ok h
    cases h
    cases columns with
    | nil => exact .nothing
    | cons => exact .unique (List.cons_ne_nil _ _)
  · cases h
    exact .nothing
  · split at h
    · cases h
      exact .nothing
    · split at h
      · cases h
        exact .nothing
      · split at h
        · cases h
          exact .nothing
        · obtain ⟨c, hc, h⟩ := Step.of_bind_ok h
          cases h
          exact .column hc

/-- What every item keeps, all of them keep. -/
theorem tableItems_keep {P : TableDef → Prop}
    (hP : ∀ {table table' : TableDef}, ItemAdds table table' → P table → P table')
    (h : (tableItems table ts).result = .ok table') (ht : P table) : P table' := by
  fun_induction tableItems table ts with
  | case1 | case2 | case4 =>
    cases h
    exact ht
  | case3 table p rest _ _ ih => exact ih h ht
  | case5 table p rest _ _ _ next rest' hnext ih =>
    exact ih h (hP (tableItem_adds (congrArg Step.result hnext)) ht)
  | case6 => cases h

/-- **A table has columns**: whatever its columns refer to, its keys, what they refer to, and its
unique lists. -/
structure TableDef.HasColumns (table : TableDef) : Prop where
  references : ∀ c ∈ table.columns, c.RefersToColumns
  keys : table.HasKeyColumns

theorem ItemAdds.hasColumns (h : ItemAdds table table') (ht : table.HasColumns) :
    table'.HasColumns := by
  cases h with
  | nothing => exact ht
  | primaryKey => exact ⟨ht.references, ht.keys⟩
  | foreignKey hkey =>
    refine ⟨ht.references, fun key hmem => ?_, ht.keys.2⟩
    rcases List.mem_append.1 hmem with hmem | hmem
    · exact ht.keys.1 key hmem
    · exact List.mem_singleton.1 hmem ▸ foreignKey_columns_ne_nil hkey
  | unique hne =>
    refine ⟨ht.references, ht.keys.1, fun columns hmem => ?_⟩
    rcases List.mem_append.1 hmem with hmem | hmem
    · exact ht.keys.2 columns hmem
    · exact List.mem_singleton.1 hmem ▸ hne
  | column hread =>
    refine ⟨fun c hmem => ?_, ht.keys⟩
    rcases List.mem_append.1 hmem with hmem | hmem
    · exact ht.references c hmem
    · exact List.mem_singleton.1 hmem ▸ column_refersToColumns hread

end

/-! ## Statements -/

/-- **What can be read as a statement** that begins on line `n`, and what it was read from. -/
inductive StatementRead (n : Nat) : Statement → Prop
  | createType (name : String) (values : List String) : StatementRead n (.createType name values)
  | createTable {name : String} {table : TableDef} {body : Input}
    (h : (tableItems { name, line := n } body).result = .ok table) :
    StatementRead n (.createTable table)
  | malformedTable (name : Option String) : StatementRead n (.malformedTable name n)
  | alterForeignKey {table : String} {key : KeyDef} {ts : Input}
    (h : (foreignKey ts).result = .ok key) : StatementRead n (.alterForeignKey table key)
  | createIndex {table : String} {columns : List String} {unique : Bool} (h : columns ≠ []) :
    StatementRead n (.createIndex table columns unique)

section
variable {n : Nat} {ts : Input} {s : Statement}

theorem createTable_reads (h : (createTable n ts).result = .ok (some s)) : StatementRead n s := by
  unfold createTable at h
  split at h
  · obtain ⟨table, htable, h⟩ := Step.of_bind_ok h
    cases h
    exact .createTable htable
  · cases h
    exact .malformedTable _
  · cases h
    exact .malformedTable _

theorem createType_reads (h : (createType ts).result = .ok (some s)) :
    ∃ name values, s = .createType name values := by
  obtain ⟨name, -, h⟩ := Step.of_bind_ok h
  split at h
  · obtain ⟨values, -, h⟩ := Step.of_bind_ok h
    cases h
    exact ⟨name, values, rfl⟩
  · cases h

theorem createIndex_reads {unique : Bool} (h : (createIndex unique ts).result = .ok (some s)) :
    ∃ table columns, s = .createIndex table columns unique ∧ columns ≠ [] := by
  unfold createIndex at h
  split at h
  · obtain ⟨table, -, h⟩ := Step.of_bind_ok h
    obtain ⟨columns, -, h⟩ := Step.of_bind_ok h
    cases columns with
    | nil => cases h
    | cons column columns =>
      cases h
      exact ⟨table, _, rfl, List.cons_ne_nil _ _⟩
  · cases h

theorem alter_reads (h : (alter ts).result = .ok (some s)) :
    ∃ table key us, s = .alterForeignKey table key ∧ (foreignKey us).result = .ok key := by
  unfold alter at h
  split at h
  · dsimp only at h
    split at h
    · unfold addedKey at h
      dsimp only at h
      split at h
      · obtain ⟨key, hkey, h⟩ := Step.of_bind_ok h
        cases h
        exact ⟨_, key, _, rfl, hkey⟩
      · cases h
    · cases h
    · cases h
  · cases h

theorem create_reads (h : (create n ts).result = .ok (some s)) : StatementRead n s := by
  unfold create at h
  split at h
  · exact createTable_reads h
  · obtain ⟨name, values, rfl⟩ := createType_reads h
    exact .createType name values
  · obtain ⟨table, columns, rfl, hne⟩ := createIndex_reads h
    exact .createIndex hne
  · obtain ⟨table, columns, rfl, hne⟩ := createIndex_reads h
    exact .createIndex hne
  · cases h

theorem statement_reads {p : Placed} (h : (statement p ts).result = .ok (some s)) :
    StatementRead p.line s := by
  unfold statement at h
  split at h
  · exact create_reads h
  · obtain ⟨table, key, us, rfl, hkey⟩ := alter_reads h
    exact .alterForeignKey hkey
  · cases h

/-- **A statement of a script** is read somewhere in the tokens. -/
theorem Script.exists_statement (h : s ∈ (Script.ofTokens ts).statements) :
    ∃ p rest, p :: rest <:+ ts ∧ (statement p rest).result = .ok (some s) := by
  have later {p q : Placed} {rest left more : Input} (hleft : left <:+ rest)
      (hmore : q :: more <:+ left) : q :: more <:+ p :: rest :=
    hmore.trans (hleft.trans (List.suffix_cons p rest))
  fun_induction Script.ofTokens ts with
  | case1 | case2 => cases h
  | case3 p rest _ rest' hread ih =>
    have hsuffix := statement_suffix p rest
    rw [hread] at hsuffix
    obtain ⟨q, more, hmore, hs⟩ := ih h
    exact ⟨q, more, later hsuffix hmore, hs⟩
  | case4 p rest _ s' rest' hread _ ih =>
    rcases List.mem_cons.1 h with rfl | h
    · exact ⟨p, rest, List.suffix_refl _, congrArg Step.result hread⟩
    · have hsuffix := statement_suffix p rest
      rw [hread] at hsuffix
      obtain ⟨q, more, hmore, hs⟩ := ih h
      exact ⟨q, more, later hsuffix hmore, hs⟩
  | case5 p rest _ e rest' hread _ ih =>
    have hsuffix := statement_suffix p rest
    rw [hread] at hsuffix
    obtain ⟨q, more, hmore, hs⟩ := ih h
    exact ⟨q, more, later ((skipStatement_suffix _).trans hsuffix) hmore, hs⟩

end

/-- **A statement has columns** wherever it refers to columns or is made of them. -/
def Statement.HasColumns : Statement → Prop
  | .createTable table => table.HasColumns
  | .alterForeignKey _ key => key.columns ≠ [] ∧ key.reference.columns ≠ []
  | .createIndex _ columns _ => columns ≠ []
  | .createType _ _ | .malformedTable _ _ => True

theorem StatementRead.hasColumns {n : Nat} {s : Statement} (h : StatementRead n s) :
    s.HasColumns := by
  cases h with
  | createType | malformedTable => trivial
  | createTable htable =>
    refine tableItems_keep ItemAdds.hasColumns htable ⟨?_, ?_, ?_⟩
    all_goals exact List.forall_mem_nil _
  | alterForeignKey hkey => exact foreignKey_columns_ne_nil hkey
  | createIndex hne => exact hne

/-- **The statements of a script have columns.** -/
theorem Script.hasColumns (ts : Input) : ∀ s ∈ (Script.ofTokens ts).statements, s.HasColumns := by
  intro s hs
  obtain ⟨p, rest, -, hread⟩ := Script.exists_statement hs
  exact (statement_reads hread).hasColumns

end DdlGraph.Sql
