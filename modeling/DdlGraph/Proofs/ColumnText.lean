import DdlGraph.Proofs.DefaultText
import DdlGraph.Proofs.KeyText

/-!
# Columns read back

The parts of a column begin with keywords that end what stands before them (`Ends`), so each is
read on its own: first the type (`TypeReads`), then what changes the definition (`Modifies`).

* `typeReads_join`: a type with any number of parts behind it;
* `typeReads_clauses`: the clauses that are written for a column.
-/

namespace DdlGraph.Ddl

open DdlGraph.Sql

/-! ## Ends of parts -/

/-- Tokens that a part of a column begins with, or that stand behind its last part. -/
def partEnds : List Token :=
  [.keyword .default, .keyword .not, .keyword .unique, .keyword .primary, .keyword .references,
    .keyword .increment, .keyword .check, .comma, .rparen]

/-- What comes next ends a part of a column. -/
def Ends (rest : Input) : Prop :=
  nextToken rest ∈ partEnds

theorem Ends.ne {rest : Input} (h : Ends rest) {t : Token} (ht : t ∉ partEnds) :
    nextToken rest ≠ t := by
  rintro rfl
  exact ht h

theorem skipToken_of_ne {ts : Input} {t : Token} (h : nextToken ts ≠ t) : skipToken ts t = ts := by
  cases ts with
  | nil => rfl
  | cons p ts =>
    unfold skipToken
    exact if_neg h

/-! ## Modifiers -/

/-- **Part of a column**: it begins with a token that ends other parts, and changes the definition
by `f`. -/
def Modifies (b : Bool) (text : List Char) (f : ColumnDef → ColumnDef) : Prop :=
  ∃ t ts, t ∈ partEnds ∧ Reads b text (t :: ts) ∧
    ∀ c rest, Ends rest → modifiers c (row (t :: ts) ++ rest) = modifiers (f c) rest

/-- **One modifier** is read before the others. -/
theorem modifiers_step {c c' : ColumnDef} {t : Token} {line : Nat} {rest rest' : Input}
    (ht : t ∉ [Token.comma, .rparen, .semicolon, .endOfText])
    (h : modifier c t rest = .ok c' rest') :
    modifiers c (⟨t, line⟩ :: rest) = modifiers c' rest' := by
  rw [modifiers_cons (p := ⟨t, line⟩) ht, h]
  rfl

theorem modifiers_end {c : ColumnDef} {rest : Input} (h : nextToken rest ∈ [Token.comma, .rparen]) :
    modifiers c rest = .ok c rest := by
  cases rest with
  | nil => simp [nextToken] at h
  | cons p rest =>
    rw [modifiers, if_pos]
    exact List.mem_append_left [.semicolon, .endOfText] h

theorem modifies_notNull (s : Settings) (b : Bool) :
    Modifies b (Clause.notNull.text s).toList fun c => { c with notNull := true } := by
  have hreads : Reads b "NOT NULL".toList [.keyword .not, .keyword .null] :=
    reads_fixed (by decide) b
  refine ⟨.keyword .not, [.keyword .null], by decide, hreads, ?_⟩
  intro c rest _
  exact modifiers_step (by decide) rfl

theorem modifies_unique (s : Settings) (b : Bool) :
    Modifies b (Clause.unique.text s).toList fun c => { c with unique := true } := by
  have hreads : Reads b "UNIQUE".toList [.keyword .unique] :=
    reads_fixed (by decide) b
  refine ⟨.keyword .unique, [], by decide, hreads, ?_⟩
  intro c rest hr
  refine modifiers_step (by decide) ?_
  change Step.ok _ (skipToken rest (.keyword .key)) = _
  rw [skipToken_of_ne (hr.ne (by decide))]

theorem modifies_primaryKey (s : Settings) (b : Bool) :
    Modifies b (Clause.primaryKey.text s).toList fun c => { c with primary := true } := by
  have hreads : Reads b "PRIMARY KEY".toList [.keyword .primary, .keyword .key] :=
    reads_fixed (by decide) b
  refine ⟨.keyword .primary, [.keyword .key], by decide, hreads, ?_⟩
  intro c rest _
  exact modifiers_step (by decide) rfl

theorem modifies_autoIncrement (b : Bool) :
    Modifies b "AUTO_INCREMENT".toList fun c => { c with autoIncrement := true } := by
  have hreads : Reads b "AUTO_INCREMENT".toList [.keyword .increment] :=
    reads_fixed (by decide) b
  refine ⟨.keyword .increment, [], by decide, hreads, ?_⟩
  intro c rest _
  exact modifiers_step (by decide) rfl

/-- The primary key that counts up, in one. -/
theorem modifies_countingKey (b : Bool) :
    Modifies b "PRIMARY KEY AUTOINCREMENT".toList fun c =>
      { c with primary := true, autoIncrement := true } := by
  have hreads : Reads b "PRIMARY KEY AUTOINCREMENT".toList
      [.keyword .primary, .keyword .key, .keyword .increment] :=
    reads_fixed (by decide) b
  refine ⟨.keyword .primary, [.keyword .key, .keyword .increment], by decide, hreads, ?_⟩
  intro c rest hr
  have hkey : modifiers c (row [.keyword .primary, .keyword .key, .keyword .increment] ++ rest) =
      modifiers { c with primary := true } (⟨.keyword .increment, 0⟩ :: rest) :=
    modifiers_step (by decide) rfl
  rw [hkey]
  exact modifiers_step (by decide) rfl

theorem modifies_default (s : Settings) {b : Bool} {literal : String} {ts : List Token}
    {value : String} (h : Restores b literal.toList ts value) :
    Modifies b ((Clause.default literal).text s).toList fun c =>
      { c with defaultValue := some value } := by
  obtain ⟨hreads, hvalue⟩ := h
  have hword : Closed b "DEFAULT ".toList [.keyword .default] :=
    closed_fixed (by decide) b
  refine ⟨.keyword .default, ts, by decide, ?_, ?_⟩
  · unfold Clause.text
    rw [String.toList_append]
    exact hword.append_reads hreads
  · intro c rest hr
    have hd := hvalue (row ts) rest (row_token ts) (hr.ne (by decide))
    refine modifiers_step (by decide) ?_
    change Step.ok { c with defaultValue := some (defaultValue (row ts ++ rest)).1 }
      (defaultValue (row ts ++ rest)).2 = _
    rw [hd]

theorem modifies_references (s : Settings) {k : KeySpec} (h : k.HasActions) (b : Bool) :
    Modifies b ((Clause.references k).text s).toList fun c =>
      { c with reference := some k.reference } := by
  refine ⟨.keyword .references, referenceTokens s k, by decide, reads_references s h b, ?_⟩
  intro c rest hr
  refine modifiers_step (by decide) ?_
  change (reference (row (referenceTokens s k) ++ rest)).bind _ = _
  rw [reference_row s h (hr.ne (by decide))]
  rfl

/-! ## Types -/

/-- **Type of a column**: with its title it is read as `c`, as far as the type goes. -/
def TypeReads (b : Bool) (text : List Char) (title : String) (c : ColumnDef) : Prop :=
  ∃ ts, Reads b text ts ∧
    ∀ rest, Ends rest → column title (row ts ++ rest) = modifiers c rest

/-- A modifier goes on the type. -/
theorem TypeReads.modify {b : Bool} {text mod : List Char} {title : String} {c : ColumnDef}
    {f : ColumnDef → ColumnDef} (h : TypeReads b text title c) (hm : Modifies b mod f) :
    TypeReads b (text ++ " ".toList ++ mod) title (f c) := by
  obtain ⟨ts, hts, hread⟩ := h
  obtain ⟨t, us, ht, hus, hmod⟩ := hm
  have hblank : Closed b " ".toList [] := closed_fixed (by decide) b
  refine ⟨_, (hts.append_closed hblank (by decide) (by decide)).append_reads hus, ?_⟩
  intro rest hr
  have hends : Ends (row (t :: us) ++ rest) := ht
  rw [List.append_nil, row_append, List.append_assoc, hread _ hends, hmod _ _ hr]

/-- **A type with modifiers behind it.** -/
theorem typeReads_join {b : Bool} {text title : String} {c : ColumnDef}
    {mods : List (String × (ColumnDef → ColumnDef))} (h : TypeReads b text.toList title c)
    (hm : ∀ m ∈ mods, Modifies b m.1.toList m.2) :
    TypeReads b (Text.join " " (text :: mods.map (·.1))).toList title
      (mods.foldl (fun c m => m.2 c) c) := by
  induction mods generalizing text c with
  | nil =>
    exact h
  | cons m mods ih =>
    have hj : Text.join " " (text :: (m :: mods).map (·.1)) =
        Text.join " " ((text ++ " " ++ m.1) :: mods.map (·.1)) :=
      rfl
    rw [hj]
    refine ih ?_ fun m' hm' => hm m' (.tail _ hm')
    rw [String.toList_append, String.toList_append]
    exact h.modify (hm m (.head _))

/-! ## Clauses -/

/-- What a column says beside its type, added to a definition. -/
def finished (keyHere : Bool) (key : Option KeySpec) (c : Column) (d : ColumnDef) : ColumnDef :=
  { d with
    defaultValue := c.defaultValue.or d.defaultValue
    notNull := d.notNull || c.has .notNull
    unique := d.unique || c.has .unique
    primary := d.primary || keyHere
    reference := (key.map KeySpec.reference).or d.reference }

/-- The clauses behind the type of a column, and what each does to its definition. -/
def modifyingClauses (s : Settings) (keyHere : Bool) (key : Option KeySpec) (c : Column) :
    List (Clause × (ColumnDef → ColumnDef)) :=
  (c.defaultValue.map fun v => (Clause.default (defaultLiteral s.dialect v),
      fun d : ColumnDef => { d with defaultValue := some v })).toList ++
    (if c.has .notNull then [(.notNull, fun d => { d with notNull := true })] else []) ++
    (if c.has .unique then [(.unique, fun d => { d with unique := true })] else []) ++
    (if keyHere then [(.primaryKey, fun d => { d with primary := true })] else []) ++
    (key.map fun k => (Clause.references k,
      fun d : ColumnDef => { d with reference := some k.reference })).toList

theorem foldl_modifyingClauses (s : Settings) (keyHere : Bool) (key : Option KeySpec) (c : Column)
    (d : ColumnDef) :
    (modifyingClauses s keyHere key c).foldl (fun d m => m.2 d) d = finished keyHere key c d := by
  unfold modifyingClauses finished
  simp only [List.foldl_append]
  cases c.defaultValue <;> cases c.has .notNull <;> cases c.has .unique <;> cases keyHere <;>
    cases key <;> simp

/-- The key of a column as its clauses have it. -/
def clauseKey (s : Settings) (key : Option KeySpec) : Option KeySpec :=
  if s.dialect = .mysql then none else key

/-- The column states the primary key in a clause of its own. -/
def statesKey (s : Settings) (g : Graph) (promoted : Bool) (c : Column) : Bool :=
  let keyHere := c.isPrimary && !promoted
  keyHere && !(typeClause s g c keyHere).isPrimaryKey

theorem clauses_eq (s : Settings) (g : Graph) (promoted : Bool) (key : Option KeySpec)
    (c : Column) :
    clauses s g promoted key c = typeClause s g c (c.isPrimary && !promoted) ::
      (modifyingClauses s (statesKey s g promoted c) (clauseKey s key) c).map (·.1) := by
  unfold clauses modifyingClauses clauseKey statesKey
  simp only [List.map_append]
  cases c.defaultValue <;> cases c.has .notNull <;> cases c.has .unique <;>
    by_cases hm : s.dialect = .mysql <;> cases key <;> simp [hm] <;> split <;> rfl

/-- **What the type of a column says of it**, besides the type: whether it is the primary
key. -/
structure TypeSays (type : Clause) (c : Column) (d : ColumnDef) : Prop where
  name : d.name = c.title
  primary : d.primary = type.isPrimaryKey
  notNull : d.notNull = false
  unique : d.unique = false
  default : d.defaultValue = none
  reference : d.reference = none

/-- A type states the primary key only where it is asked to. -/
theorem keyHere_of_isPrimaryKey {s : Settings} {g : Graph} {c : Column} {keyHere : Bool}
    (h : (typeClause s g c keyHere).isPrimaryKey = true) : keyHere = true := by
  cases keyHere with
  | true => rfl
  | false =>
    unfold typeClause at h
    split at h
    · cases h
    · split at h
      · dsimp only at h
        split at h
        · cases h
        · cases h
        · cases h
      · cases h

/-- **Readable column**: its type is read as `d`, its default comes back, and its key has actions
that there are. -/
structure ColumnReads (s : Settings) (g : Graph) (b promoted : Bool) (key : Option KeySpec)
    (c : Column) (d : ColumnDef) : Prop where
  type : TypeReads b ((typeClause s g c (c.isPrimary && !promoted)).text s).toList c.title d
  default : ∀ v ∈ c.defaultValue, ∃ ts, Restores b (defaultLiteral s.dialect v).toList ts v
  key : ∀ k ∈ key, k.HasActions

theorem modifies_of_mem {s : Settings} {b keyHere : Bool} {key : Option KeySpec} {c : Column}
    (hd : ∀ v ∈ c.defaultValue, ∃ ts, Restores b (defaultLiteral s.dialect v).toList ts v)
    (hk : ∀ k ∈ key, k.HasActions) {m : Clause × (ColumnDef → ColumnDef)}
    (hm : m ∈ modifyingClauses s keyHere key c) : Modifies b (m.1.text s).toList m.2 := by
  unfold modifyingClauses at hm
  simp only [List.mem_append, Option.mem_toList, Option.map_eq_some_iff] at hm
  rcases hm with (((⟨v, hv, rfl⟩ | hm) | hm) | hm) | ⟨k, hkey, rfl⟩
  · obtain ⟨ts, hts⟩ := hd v hv
    exact modifies_default s hts
  · split at hm
    · obtain rfl := List.mem_singleton.1 hm
      exact modifies_notNull s b
    · cases hm
  · split at hm
    · obtain rfl := List.mem_singleton.1 hm
      exact modifies_unique s b
    · cases hm
  · split at hm
    · obtain rfl := List.mem_singleton.1 hm
      exact modifies_primaryKey s b
    · cases hm
  · exact modifies_references s (hk k hkey) b

/-- **The clauses of a column read back** as its definition. -/
theorem typeReads_clauses {s : Settings} {g : Graph} {b promoted : Bool} {key : Option KeySpec}
    {c : Column} {d : ColumnDef} (h : ColumnReads s g b promoted key c d) :
    TypeReads b (Text.join " " ((clauses s g promoted key c).map (Clause.text s))).toList c.title
      (finished (statesKey s g promoted c) (clauseKey s key) c d) := by
  have hkey : ∀ k ∈ clauseKey s key, k.HasActions := by
    unfold clauseKey
    split
    · exact nofun
    · exact h.key
  have hmods : ∀ m ∈ (modifyingClauses s (statesKey s g promoted c) (clauseKey s key) c).map
      (fun m => (m.1.text s, m.2)), Modifies b m.1.toList m.2 := by
    intro m hm
    obtain ⟨m', hm', rfl⟩ := List.mem_map.1 hm
    exact modifies_of_mem h.default hkey hm'
  have hjoin := typeReads_join h.type hmods
  rw [List.foldl_map, foldl_modifyingClauses, List.map_map] at hjoin
  rw [clauses_eq, List.map_cons, List.map_map]
  exact hjoin

end DdlGraph.Ddl
