import DdlGraph.Proofs.BareNames
import DdlGraph.Proofs.StatementText
import Mathlib.Algebra.GroupWithZero.Nat

/-!
# The primary key of a table

Whether a column states the primary key is decided in three places: by the items of the table, which
take a key of several columns or of one that refers to another for themselves, by the type of a
column that counts up, and by its clauses. Together they state it once (`StatesKey`).

* `countP_clauses`: the clauses of a column state the key just if the column does, whatever else it
  says;
* `statesKey_items`: the items of a table state its primary key once, if it has one;
* `Clause.namesKey`, `Item.namesKey`: how often the text of a clause or of an item says so;
* `namesKey_createTable`: the text of a table says it once.
-/

namespace DdlGraph.Ddl

open Sql

/-- How often an item states a primary key. -/
def Item.keyCount : Item → Nat
  | .column _ clauses => clauses.countP Clause.isPrimaryKey
  | .primaryKey _ => 1
  | .foreignKey _ => 0

/-- **How a table states its primary key**: not at all, with its only primary column, or as an item
that lists all of them. -/
inductive StatesKey (t : Table) (keys : List KeySpec) (is : List Item) : Prop
  /-- No column is primary, and no item states a key. -/
  | none (primary : primaryColumns t = []) (silent : ∀ i ∈ is, i.keyCount = 0)
  /-- The only primary column states the key, and it refers to nothing. -/
  | ofColumn (c : Column) (columns columns' : List Column) (clauses : List Clause)
    (others others' : List Item) (primary : primaryColumns t = [c])
    (place : t.columns = columns ++ c :: columns')
    (items : is = others ++ .column c.title clauses :: others')
    (same : others.length = columns.length)
    (once : clauses.countP Clause.isPrimaryKey = 1)
    (noReference : ∀ k, .references k ∉ clauses) (noKey : ∀ k ∈ keys, k.sourceColumn ≠ c.title)
    (silent : ∀ i ∈ others ++ others', i.keyCount = 0)
  /-- An item of its own lists the primary columns in order. -/
  | ofTable (others others' : List Item) (primary : primaryColumns t ≠ [])
    (items : is = others ++ .primaryKey ((primaryColumns t).map (·.title)) :: others')
    (silent : ∀ i ∈ others ++ others', i.keyCount = 0)

/-! ## Columns -/

section
variable (s : Settings) (g : Graph) (promoted : Bool) (key : Option KeySpec) (c : Column)

theorem countP_modifyingClauses (keyHere : Bool) :
    ((modifyingClauses s keyHere key c).map (·.1)).countP Clause.isPrimaryKey = keyHere.toNat := by
  unfold modifyingClauses
  cases c.defaultValue <;> cases c.has .notNull <;> cases c.has .unique <;> cases keyHere <;>
    cases key <;> rfl

/-- **Clauses of a column**: one states the primary key, in the type or behind it, just if the
column is to do so. -/
theorem countP_clauses :
    (clauses s g promoted key c).countP Clause.isPrimaryKey = (c.isPrimary && !promoted).toNat := by
  rw [clauses_eq, List.countP_cons, countP_modifyingClauses]
  unfold statesKey
  dsimp only
  have htype := @keyHere_of_isPrimaryKey s g c (c.isPrimary && !promoted)
  generalize (c.isPrimary && !promoted) = keyHere at htype ⊢
  cases ht : (typeClause s g c keyHere).isPrimaryKey with
  | true =>
    rw [htype ht]
    rfl
  | false => simp

/-- A column refers to what its key says. -/
theorem references_of_mem_clauses {k : KeySpec} (h : .references k ∈ clauses s g promoted key c) :
    key = some k := by
  have hkey : .references k ∈
      (modifyingClauses s (statesKey s g promoted c) (clauseKey s key) c).map (·.1) := by
    rw [clauses_eq] at h
    rcases List.mem_cons.1 h with he | h
    · obtain ⟨text, htype | htype⟩ :=
        Repair.typeClause_cases s g c (c.isPrimary && !promoted) <;>
        rw [htype] at he <;> cases he
    · exact h
  have hclause : clauseKey s key = some k := by
    unfold modifyingClauses at hkey
    generalize clauseKey s key = key' at hkey
    revert hkey
    cases c.defaultValue <;> cases c.has .notNull <;> cases c.has .unique <;>
      cases statesKey s g promoted c <;> cases key' <;> simp [eq_comm]
  unfold clauseKey at hclause
  split at hclause
  · cases hclause
  · exact hclause

end

/-! ## Tables -/

section
variable {s : Settings} {g : Graph} {t : Table} {keys : List KeySpec}

/-- A column without a key among them is the source of none of the keys. -/
theorem keyOfColumn?_eq_none_iff {c : Column} :
    keyOfColumn? keys c = none ↔ ∀ k ∈ keys, k.sourceColumn ≠ c.title := by
  unfold keyOfColumn?
  rw [List.find?_eq_none]
  simp

theorem promotesKey_eq_false_iff : promotesKey t keys = false ↔
    (primaryColumns t).length ≤ 1 ∧
      ∀ c ∈ primaryColumns t, ∀ k ∈ keys, k.sourceColumn ≠ c.title := by
  unfold promotesKey
  rw [Bool.or_eq_false_iff, decide_eq_false_iff_not, Nat.not_lt, List.any_eq_false]
  simp only [Option.isSome_iff_ne_none, ne_eq, Classical.not_not, keyOfColumn?_eq_none_iff]

variable (s g t keys)

/-- The item of a column. -/
def columnItem (c : Column) : Item :=
  .column c.title (clauses s g (promotesKey t keys) (keyOfColumn? keys c) c)

/-- The items behind those of the columns and of the primary key. -/
def keyItems : List Item :=
  if s.dialect = .mysql then keys.map .foreignKey else []

theorem items_eq : items s g t keys = t.columns.map (columnItem s g t keys) ++
    ((if promotesKey t keys then [.primaryKey ((primaryColumns t).map (·.title))] else []) ++
      keyItems s keys) :=
  List.append_assoc _ _ _

theorem keyCount_columnItem (c : Column) :
    (columnItem s g t keys c).keyCount = (c.isPrimary && !promotesKey t keys).toNat :=
  countP_clauses s g (promotesKey t keys) (keyOfColumn? keys c) c

variable {s g t keys}

theorem keyCount_columnItems {columns : List Column}
    (h : ∀ c ∈ columns, ¬ (c.isPrimary = true ∧ promotesKey t keys = false)) :
    ∀ i ∈ columns.map (columnItem s g t keys), i.keyCount = 0 := by
  intro i hi
  obtain ⟨c, hc, rfl⟩ := List.mem_map.1 hi
  rw [keyCount_columnItem]
  have hnot := h c hc
  revert hnot
  cases c.isPrimary <;> cases promotesKey t keys <;> simp

theorem keyCount_keyItems : ∀ i ∈ keyItems s keys, i.keyCount = 0 := by
  intro i hi
  unfold keyItems at hi
  split at hi
  · obtain ⟨k, -, rfl⟩ := List.mem_map.1 hi
    rfl
  · cases hi

/-- A table states its primary key in one of three ways. -/
theorem statesKey_items (s : Settings) (g : Graph) (t : Table) (keys : List KeySpec) :
    StatesKey t keys (items s g t keys) := by
  cases hp : promotesKey t keys with
  | true =>
    refine .ofTable (t.columns.map (columnItem s g t keys)) (keyItems s keys) ?_ ?_ ?_
    · intro hnone
      have hfalse : promotesKey t keys = false := by
        rw [promotesKey_eq_false_iff, hnone]
        exact ⟨Nat.zero_le 1, nofun⟩
      rw [hfalse] at hp
      cases hp
    · rw [items_eq, hp]
      rfl
    · rw [List.forall_mem_append]
      refine ⟨keyCount_columnItems fun c _ h => ?_, keyCount_keyItems⟩
      rw [hp] at h
      cases h.2
  | false =>
    have hitems : items s g t keys = t.columns.map (columnItem s g t keys) ++ keyItems s keys := by
      rw [items_eq, hp]
      rfl
    obtain ⟨hlength, hfree⟩ := promotesKey_eq_false_iff.1 hp
    cases hprimary : primaryColumns t with
    | nil =>
      refine .none hprimary ?_
      rw [hitems, List.forall_mem_append]
      exact ⟨keyCount_columnItems fun c hc h => List.filter_eq_nil_iff.1 hprimary c hc h.1,
        keyCount_keyItems⟩
    | cons c rest =>
      rw [hprimary] at hlength hfree
      obtain rfl : rest = [] := List.length_eq_zero_iff.1 (by simpa using hlength)
      obtain ⟨columns, columns', hplace, hbefore, hc, hafter⟩ := List.filter_eq_cons_iff.1 hprimary
      have hnoKey := hfree c (.head _)
      refine .ofColumn c columns columns'
        (clauses s g (promotesKey t keys) (keyOfColumn? keys c) c)
        (columns.map (columnItem s g t keys))
        (columns'.map (columnItem s g t keys) ++ keyItems s keys) hprimary hplace ?_
        (List.length_map _) ?_ (fun k hk => ?_) hnoKey ?_
      · rw [hitems, hplace, List.map_append, List.map_cons, List.append_assoc]
        rfl
      · rw [countP_clauses, hc, hp]
        rfl
      · have hkey := references_of_mem_clauses _ _ _ _ _ hk
        rw [keyOfColumn?_eq_none_iff.2 hnoKey] at hkey
        cases hkey
      · rw [List.forall_mem_append, List.forall_mem_append]
        exact ⟨keyCount_columnItems fun d hd h => hbefore d hd h.1,
          keyCount_columnItems fun d hd h => List.filter_eq_nil_iff.1 hafter d hd h.1,
          keyCount_keyItems⟩

theorem sum_keyCount_eq_zero {is : List Item} (h : ∀ i ∈ is, i.keyCount = 0) :
    (is.map Item.keyCount).sum = 0 := by
  rw [List.sum_eq_zero_iff_forall_eq_nat, List.forall_mem_map]
  exact h

/-- With one item that states a key once, and no other that does, a key is stated once. -/
theorem sum_keyCount_eq_one {others others' : List Item} {i : Item} (hi : i.keyCount = 1)
    (h : ∀ j ∈ others ++ others', j.keyCount = 0) :
    ((others ++ i :: others').map Item.keyCount).sum = 1 := by
  rw [List.forall_mem_append] at h
  rw [List.map_append, List.map_cons, List.sum_append, List.sum_cons, hi,
    sum_keyCount_eq_zero h.1, sum_keyCount_eq_zero h.2]

/-- A key is stated once or, by a table without primary columns, not at all. -/
theorem sum_keyCount_items (s : Settings) (g : Graph) (t : Table) (keys : List KeySpec) :
    ((items s g t keys).map Item.keyCount).sum = if primaryColumns t = [] then 0 else 1 := by
  cases statesKey_items s g t keys with
  | none primary silent => rw [if_pos primary, sum_keyCount_eq_zero silent]
  | ofColumn c columns columns' clauses others others' primary place items same once noReference
      noKey silent =>
    rw [if_neg (primary ▸ List.cons_ne_nil c []), items,
      sum_keyCount_eq_one (i := .column c.title clauses) once silent]
  | ofTable others others' primary items silent =>
    rw [if_neg primary, items, sum_keyCount_eq_one (i := .primaryKey _) rfl silent]

/-- **The items of a table state its primary key once**, if it has one: with its only primary
column, which then refers to nothing, or in an item that lists the primary columns in order. -/
theorem statesKey_once (s : Settings) (g : Graph) (t : Table) (keys : List KeySpec) :
    StatesKey t keys (items s g t keys) ∧
      ((items s g t keys).map Item.keyCount).sum = if primaryColumns t = [] then 0 else 1 :=
  ⟨statesKey_items s g t keys, sum_keyCount_items s g t keys⟩

/-- A column that counts up and refers to another gives its key to an item of its own. -/
example :
    let key : KeySpec := ⟨"staff", "id", "people", "id", none, none⟩
    items { dialect := .sqlite } {}
      { id := "t", name := "staff"
        columns := [{ title := "id", dataType := "serial", constraints := [.primary] }] } [key] =
      [.column "id" [.type "INTEGER", .references key], .primaryKey ["id"]] := by
  decide +kernel

end

/-! ## Texts -/

/-- **Text that says `PRIMARY` `n` times**: it is read by itself, and so many of its tokens are this
keyword. -/
def NamesKey (b : Bool) (text : List Char) (n : Nat) : Prop :=
  ∃ ts, Reads b text ts ∧ ts.count (.keyword .primary) = n

/-- The text of a type or of a default does not speak of a primary key, and a reference has actions
that there are. -/
def Clause.Plain (b : Bool) : Clause → Prop
  | .type text | .countingKey text | .default text => NamesKey b text.toList 0
  | .references key => key.HasActions
  | .notNull | .unique | .primaryKey => True

/-- No clause of the item speaks of a primary key in a type or in a default. -/
def Item.Plain (b : Bool) : Item → Prop
  | .column _ clauses => ∀ c ∈ clauses, c.Plain b
  | .primaryKey _ => True
  | .foreignKey key => key.HasActions

section
variable {b : Bool}

theorem count_nameToken (s : Settings) (name : String) (ts : List Token) :
    (nameToken s name :: ts).count (.keyword .primary) = ts.count (.keyword .primary) := by
  rcases nameToken_cases s name with h | h <;> simp [h]

theorem count_intercalate {a : Token} {separator : List Token} (h : separator.count a = 0)
    (lists : List (List Token)) :
    (separator.intercalate lists).count a = (lists.map (List.count a)).sum := by
  induction lists with
  | nil => rfl
  | cons l lists ih =>
    cases lists with
    | nil => simp
    | cons l' lists =>
      rw [List.intercalate_cons_cons, List.count_append, List.count_append, h, ih]
      rfl

theorem sum_map_toNat {α : Type} (p : α → Bool) (l : List α) :
    (l.map fun a => (p a).toNat).sum = l.countP p := by
  induction l with
  | nil => rfl
  | cons a l ih =>
    rw [List.map_cons, List.sum_cons, ih, List.countP_cons, Nat.add_comm]
    cases p a <;> rfl

theorem count_eventTokens {event : Keyword} (h : event ≠ .primary) (action : Option String) :
    (eventTokens event action).count (.keyword .primary) = 0 := by
  unfold eventTokens
  split
  · rename_i a _
    rw [List.count_eq_zero]
    cases a <;> simp [actionTokens, h.symm]
  · rfl

theorem count_referenceTokens (s : Settings) (k : KeySpec) :
    (referenceTokens s k).count (.keyword .primary) = 0 := by
  have hdelete := count_eventTokens (by decide : Keyword.delete ≠ .primary) k.onDelete
  have hupdate := count_eventTokens (by decide : Keyword.update ≠ .primary) k.onUpdate
  simp [referenceTokens, count_nameToken, hdelete, hupdate]

/-- **The text of a clause** says `PRIMARY` just if the clause states the key. -/
theorem Clause.namesKey {c : Clause} (h : c.Plain b) (s : Settings) :
    NamesKey b (c.text s).toList c.isPrimaryKey.toNat := by
  cases c with
  | type text => exact h
  | countingKey text =>
    obtain ⟨ts, hts, hcount⟩ := h
    have hblank : Closed b " ".toList [] := closed_fixed (by decide) b
    have hkey : Reads b "PRIMARY KEY AUTOINCREMENT".toList
        [.keyword .primary, .keyword .key, .keyword .increment] := reads_fixed (by decide) b
    have htext : (text ++ " PRIMARY KEY AUTOINCREMENT").toList =
        text.toList ++ (" ".toList ++ "PRIMARY KEY AUTOINCREMENT".toList) := String.toList_append
    refine ⟨_, htext ▸ hts.append (hblank.append_reads hkey) (by decide), ?_⟩
    rw [List.count_append, hcount]
    rfl
  | default literal =>
    obtain ⟨ts, hts, hcount⟩ := h
    have hword : Closed b "DEFAULT ".toList [.keyword .default] := closed_fixed (by decide) b
    refine ⟨_, String.toList_append ▸ hword.append_reads hts, ?_⟩
    rw [List.count_append, hcount]
    rfl
  | notNull =>
    have hreads : Reads b "NOT NULL".toList [.keyword .not, .keyword .null] :=
      reads_fixed (by decide) b
    exact ⟨_, hreads, rfl⟩
  | unique =>
    have hreads : Reads b "UNIQUE".toList [.keyword .unique] := reads_fixed (by decide) b
    exact ⟨_, hreads, rfl⟩
  | primaryKey =>
    have hreads : Reads b "PRIMARY KEY".toList [.keyword .primary, .keyword .key] :=
      reads_fixed (by decide) b
    exact ⟨_, hreads, rfl⟩
  | references key =>
    refine ⟨_, reads_references s h b, ?_⟩
    rw [List.count_cons, count_referenceTokens]
    rfl

/-- A type that counts up brings the key along. -/
example : NamesKey false "INTEGER PRIMARY KEY AUTOINCREMENT".toList 1 :=
  Clause.namesKey (c := .countingKey "INTEGER")
    ⟨[.ident "INTEGER"], reads_literal (by decide +kernel) false, rfl⟩ {}

/-- Clauses with blanks between them. -/
theorem namesKey_clauses {cs : List Clause} (h : ∀ c ∈ cs, c.Plain b) (s : Settings) :
    NamesKey b (Text.join " " (cs.map (Clause.text s))).toList (cs.countP Clause.isPrimaryKey) := by
  have hclauses : ∀ c ∈ cs, NamesKey b (c.text s).toList c.isPrimaryKey.toNat :=
    fun c hc => Clause.namesKey (h c hc) s
  choose! spelled hspelled hcount using hclauses
  have hblank : Closed b " ".toList [] := closed_fixed (by decide) b
  refine ⟨[].intercalate (cs.map spelled), ?_, ?_⟩
  · unfold Text.join
    rw [String.toList_intercalate, List.map_map]
    exact reads_intercalate hblank (by decide) (by decide) hspelled
  · rw [count_intercalate rfl, List.map_map, ← sum_map_toNat]
    exact congrArg List.sum (List.map_congr_left hcount)

theorem count_titleTokens (s : Settings) (titles : List String) :
    ([Token.comma].intercalate (titles.map fun n => [nameToken s n])).count (.keyword .primary) =
      0 := by
  rw [count_intercalate rfl, List.map_map, List.sum_eq_zero_iff_forall_eq_nat, List.forall_mem_map]
  exact fun n _ => count_nameToken s n []

/-- **The text of an item** says `PRIMARY` as often as the item states the key. -/
theorem Item.namesKey {i : Item} (h : i.Plain b) (s : Settings) (width : Nat) :
    NamesKey b (i.text s width).toList i.keyCount := by
  cases i with
  | column title clauses =>
    obtain ⟨ts, hts, hcount⟩ := namesKey_clauses h s
    exact ⟨_, reads_columnText s hts width, (count_nameToken s title ts).trans hcount⟩
  | primaryKey titles =>
    refine ⟨_, reads_primaryKeyText s b titles width, ?_⟩
    rw [List.count_append, List.count_append, count_titleTokens]
    rfl
  | foreignKey key =>
    refine ⟨_, reads_foreignKey s h b, ?_⟩
    simp [foreignKeyTokens, count_nameToken, count_referenceTokens, Item.keyCount]

/-- **The text of a table** says `PRIMARY` once, if the table has primary columns, and else not at
all. -/
theorem namesKey_createTable {s : Settings} {g : Graph} {t : Table} {keys : List KeySpec}
    (h : ∀ i ∈ items s g t keys, i.Plain b) (width : Nat) :
    NamesKey b ("CREATE TABLE IF NOT EXISTS " ++ quote s t.name ++ " (\n" ++
        itemLines ((items s g t keys).map (Item.text s width)) ++ ");\n").toList
      (if primaryColumns t = [] then 0 else 1) := by
  have hitems : ∀ i ∈ items s g t keys, NamesKey b (i.text s width).toList i.keyCount :=
    fun i hi => Item.namesKey (h i hi) s width
  choose! spelled hspelled hcount using hitems
  have hlines : List.Forall₂ (fun item ts => Reads b item.toList ts)
      ((items s g t keys).map (Item.text s width)) ((items s g t keys).map spelled) := by
    rw [List.forall₂_map_left_iff, List.forall₂_map_right_iff, List.forall₂_same]
    exact hspelled
  refine ⟨_, (closed_tableText s t.name (closed_itemLines hlines)).reads, ?_⟩
  have hsum : ([Token.comma].intercalate ((items s g t keys).map spelled)).count
      (.keyword .primary) = if primaryColumns t = [] then 0 else 1 := by
    rw [count_intercalate rfl, List.map_map, ← sum_keyCount_items s g t keys]
    exact congrArg List.sum (List.map_congr_left hcount)
  simp [count_nameToken, hsum]

end

end DdlGraph.Ddl
