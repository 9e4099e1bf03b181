import DdlGraph.Ddl.Script
import DdlGraph.Proofs.Lines
import DdlGraph.Proofs.NameText

/-!
# Foreign keys read back

The text of a reference is read as the reference (`reads_references`, `reference_row`), within a
table as well as behind `ALTER TABLE`.

* `KeySpec.reference`: what a key says of its target, as a statement has it;
* `KeySpec.HasActions`: its actions are those that the language has.
-/

namespace DdlGraph.Sql

/-! ## Actions -/

/-- The action that a text names. -/
def ReferentialAction.ofText? (text : String) : Option ReferentialAction :=
  [.cascade, .restrict, .setNull, .setDefault, .noAction].find? (·.text == text)

theorem ReferentialAction.ofText?_text (a : ReferentialAction) : ofText? a.text = some a := by
  cases a <;> decide

/-- The tokens of an action. -/
def actionTokens : ReferentialAction → List Token
  | .cascade => [.keyword .cascade]
  | .restrict => [.keyword .restrict]
  | .setNull => [.ident "SET", .keyword .null]
  | .setDefault => [.ident "SET", .keyword .default]
  | .noAction => [.ident "NO", .ident "ACTION"]

theorem reads_action (a : ReferentialAction) (b : Bool) :
    Reads b a.text.toList (actionTokens a) := by
  cases a <;> exact reads_fixed (by decide) b

theorem isWord_set : (Token.ident "SET").isWord "set" = true := by decide

theorem isWord_no : (Token.ident "NO").isWord "no" = true := by decide

theorem isWord_action : (Token.ident "ACTION").isWord "action" = true := by decide

theorem not_isWord_set : (Token.ident "NO").isWord "set" = false := by decide

/-- **An action reads back.** -/
theorem action_row (a : ReferentialAction) (rest : Input) :
    action (row (actionTokens a) ++ rest) = (some a, rest) := by
  cases a with
  | cascade | restrict => rfl
  | setNull | setDefault =>
    simp [action, actionTokens, row, isWord_set, nextToken]
  | noAction =>
    simp [action, actionTokens, row, isWord_no, isWord_action, not_isWord_set, skipWord]

end DdlGraph.Sql

namespace DdlGraph.Ddl

open DdlGraph.Sql

/-! ## References -/

/-- What a key says of its target. -/
def KeySpec.reference (k : KeySpec) : Reference where
  table := k.targetTable
  columns := [k.targetColumn]
  onDelete := k.onDelete.bind ReferentialAction.ofText?
  onUpdate := k.onUpdate.bind ReferentialAction.ofText?

/-- The foreign key as a statement. -/
def KeySpec.keyDef (k : KeySpec) : KeyDef :=
  ⟨[k.sourceColumn], k.reference⟩

/-- The text is that of an action. -/
def IsAction (text : String) : Prop :=
  ∃ a : ReferentialAction, text = a.text

/-- The actions of the key are among those that there are. -/
structure KeySpec.HasActions (k : KeySpec) : Prop where
  onDelete : ∀ text ∈ k.onDelete, IsAction text
  onUpdate : ∀ text ∈ k.onUpdate, IsAction text

/-- The tokens of `ON` with an event. -/
def eventTokens (event : Keyword) (action : Option String) : List Token :=
  match action.bind ReferentialAction.ofText? with
  | some a => .keyword .on :: .keyword event :: actionTokens a
  | none => []

/-- The text of `ON` with an event. -/
def eventText (mark : String) (action : Option String) : String :=
  match action with
  | some text => mark ++ text
  | none => ""

theorem stops_eventText {mark : String} (h : Stops mark.toList) (hne : mark.toList ≠ [])
    (action : Option String) : Stops (eventText mark action).toList := by
  cases action with
  | none => exact nofun
  | some text =>
    rw [eventText, String.toList_append]
    exact h.append hne _

theorem reads_eventText {b : Bool} {mark : String} {event : Keyword}
    (hm : Closed b mark.toList [.keyword .on, .keyword event]) {action : Option String}
    (h : ∀ text ∈ action, IsAction text) :
    Reads b (eventText mark action).toList (eventTokens event action) := by
  cases action with
  | none => exact Closed.nil.reads
  | some text =>
    obtain ⟨a, rfl⟩ := h text rfl
    unfold eventText eventTokens
    rw [Option.bind_some, ReferentialAction.ofText?_text, String.toList_append]
    exact hm.append_reads (reads_action a b)

/-- The tokens of a reference after its keyword. -/
def referenceTokens (s : Settings) (k : KeySpec) : List Token :=
  [nameToken s k.targetTable, .lparen, nameToken s k.targetColumn, .rparen] ++
    (eventTokens .delete k.onDelete ++ eventTokens .update k.onUpdate)

theorem referencesText_eq (s : Settings) (k : KeySpec) :
    referencesText s k = "REFERENCES " ++ quote s k.targetTable ++ "(" ++ quote s k.targetColumn ++
      ")" ++ eventText " ON DELETE " k.onDelete ++ eventText " ON UPDATE " k.onUpdate := by
  unfold referencesText eventText
  cases k.onDelete <;> cases k.onUpdate <;> rfl

theorem reads_references (s : Settings) {k : KeySpec} (h : k.HasActions) (b : Bool) :
    Reads b (referencesText s k).toList (.keyword .references :: referenceTokens s k) := by
  rw [referencesText_eq]
  simp only [String.toList_append]
  have hword : Closed b "REFERENCES ".toList [.keyword .references] :=
    closed_fixed (by decide) b
  have hopen : Closed b "(".toList [.lparen] := closed_fixed (by decide) b
  have hclose : Closed b ")".toList [.rparen] := closed_fixed (by decide) b
  have hdelete : Closed b " ON DELETE ".toList [.keyword .on, .keyword .delete] :=
    closed_fixed (by decide) b
  have hupdate : Closed b " ON UPDATE ".toList [.keyword .on, .keyword .update] :=
    closed_fixed (by decide) b
  have htable := (hword.append_reads (reads_quote s k.targetTable b)).append_closed hopen
    (by decide) (by decide)
  have hcolumn := (htable.append_reads (reads_quote s k.targetColumn b)).append_closed hclose
    (by decide) (by decide)
  have hactions := (hcolumn.append_reads (reads_eventText hdelete h.onDelete)).append
    (reads_eventText hupdate h.onUpdate)
    (stops_eventText (by decide) (by decide) k.onUpdate)
  simpa [referenceTokens] using hactions

/-! ## Reading -/

theorem objectName?_row (s : Settings) (name : String) {rest : Input} (h : nextToken rest ≠ .dot) :
    objectName? (⟨nameToken s name, 0⟩ :: rest) = some (name, rest) := by
  unfold objectName?
  dsimp only
  rw [nameText?_nameToken, Option.map_some, nameParts_of_not_dot h]

theorem objectName_row (s : Settings) (name : String) (wanted : Wanted) {rest : Input}
    (h : nextToken rest ≠ .dot) :
    objectName wanted (⟨nameToken s name, 0⟩ :: rest) = .ok name rest := by
  unfold objectName
  rw [objectName?_row s name h]

/-- A name is none of the tokens that have a meaning in a list. -/
theorem columnItems_name (s : Settings) (name : String) (columns : List String) (rest : Input) :
    columnItems columns true (⟨nameToken s name, 0⟩ :: rest) =
      columnItems (columns ++ [name]) false rest := by
  have hn := nameText?_nameToken s name
  rw [columnItems]
  dsimp only
  split
  · rename_i h
    rw [h] at hn
    cases hn
  · rename_i h
    rw [h] at hn
    cases hn
  · rename_i h
    rw [h] at hn
    cases hn
  · rename_i h
    rw [h] at hn
    cases hn
  · rw [hn]
    rfl

/-- A list of names with commas between them. -/
theorem columnItems_names (s : Settings) (names columns : List String) (rest : Input) :
    columnItems columns true
        (row ([Token.comma].intercalate (names.map fun n => [nameToken s n])) ++
          ⟨.rparen, 0⟩ :: rest) =
      .ok (columns ++ names) rest := by
  induction names generalizing columns with
  | nil =>
    rw [List.append_nil, columnItems.eq_def]
    rfl
  | cons name names ih =>
    cases names with
    | nil =>
      change columnItems columns true (⟨nameToken s name, 0⟩ :: ⟨.rparen, 0⟩ :: rest) = _
      rw [columnItems_name, columnItems]
    | cons next names =>
      have hnext := ih (columns ++ [name])
      rw [List.map_cons, List.append_assoc] at hnext
      rw [List.map_cons, List.map_cons, List.intercalate_cons_cons]
      change columnItems columns true (⟨nameToken s name, 0⟩ :: ⟨.comma, 0⟩ :: (row _ ++ _)) = _
      rw [columnItems_name, columnItems]
      exact hnext

/-- **Columns in parentheses read back.** -/
theorem columnList_row (s : Settings) (names : List String) (rest : Input) :
    columnList (⟨.lparen, 0⟩ ::
        (row ([Token.comma].intercalate (names.map fun n => [nameToken s n])) ++
          ⟨.rparen, 0⟩ :: rest)) = .ok names rest :=
  columnItems_names s names [] rest

theorem actions_delete {action : Option String} (h : ∀ text ∈ action, IsAction text)
    (u : Option ReferentialAction) (rest : Input) :
    actions none u (row (eventTokens .delete action) ++ rest) =
      actions (action.bind ReferentialAction.ofText?) u rest := by
  cases action with
  | none => rfl
  | some text =>
    obtain ⟨a, rfl⟩ := h text rfl
    unfold eventTokens
    rw [Option.bind_some, ReferentialAction.ofText?_text, row_cons, row_cons, List.cons_append,
      List.cons_append, actions, action_row]

theorem actions_update {action : Option String} (h : ∀ text ∈ action, IsAction text)
    (d : Option ReferentialAction) (rest : Input) :
    actions d none (row (eventTokens .update action) ++ rest) =
      actions d (action.bind ReferentialAction.ofText?) rest := by
  cases action with
  | none => rfl
  | some text =>
    obtain ⟨a, rfl⟩ := h text rfl
    unfold eventTokens
    rw [Option.bind_some, ReferentialAction.ofText?_text, row_cons, row_cons, List.cons_append,
      List.cons_append, actions, action_row]

theorem columnList_name (s : Settings) (name : String) (rest : Input) :
    columnList (⟨.lparen, 0⟩ :: ⟨nameToken s name, 0⟩ :: ⟨.rparen, 0⟩ :: rest) = .ok [name] rest :=
  columnList_row s [name] rest

/-- **A reference reads back** up to what cannot go on it. -/
theorem reference_row (s : Settings) {k : KeySpec} (h : k.HasActions) {rest : Input}
    (hr : nextToken rest ≠ .keyword .on) :
    reference (row (referenceTokens s k) ++ rest) = .ok k.reference rest := by
  have hactions : actions none none
      (row (eventTokens .delete k.onDelete) ++ (row (eventTokens .update k.onUpdate) ++ rest)) =
        ((k.reference.onDelete, k.reference.onUpdate), rest) := by
    rw [actions_delete h.onDelete, actions_update h.onUpdate, actions_of_not_on hr]
    rfl
  unfold reference referenceTokens
  simp only [row_append, row_cons, List.cons_append, List.nil_append, List.append_assoc]
  rw [objectName_row s k.targetTable _ (by simp [nextToken]), Step.ok_bind, columnList_name,
    Step.ok_bind, hactions]
  rfl

/-- The tokens of a foreign key after its first word. -/
def foreignKeyTokens (s : Settings) (k : KeySpec) : List Token :=
  [.keyword .key, .lparen, nameToken s k.sourceColumn, .rparen, .keyword .references] ++
    referenceTokens s k

/-- The text of a foreign key from its columns on. -/
theorem reads_foreignKey (s : Settings) {k : KeySpec} (h : k.HasActions) (b : Bool) :
    Reads b ("FOREIGN KEY (" ++ quote s k.sourceColumn ++ ") " ++ referencesText s k).toList
      (.keyword .foreign :: foreignKeyTokens s k) := by
  simp only [String.toList_append]
  have hopen : Closed b "FOREIGN KEY (".toList [.keyword .foreign, .keyword .key, .lparen] :=
    closed_fixed (by decide) b
  have hclose : Closed b ") ".toList [.rparen] := closed_fixed (by decide) b
  have hcolumn := (hopen.append_reads (reads_quote s k.sourceColumn b)).append_closed hclose
    (by decide) (by decide)
  exact hcolumn.append_reads (reads_references s h b)

theorem foreignKey_row (s : Settings) {k : KeySpec} (h : k.HasActions) {rest : Input}
    (hr : nextToken rest ≠ .keyword .on) :
    foreignKey (row (foreignKeyTokens s k) ++ rest) = .ok k.keyDef rest := by
  unfold foreignKeyTokens foreignKey
  simp only [row_cons, List.cons_append, List.nil_append]
  rw [columnList_name, Step.ok_bind]
  change (reference _).bind _ = _
  rw [reference_row s h hr]
  rfl

end DdlGraph.Ddl
