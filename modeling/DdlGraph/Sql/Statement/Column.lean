import DdlGraph.Sql.Statement.Production
import DdlGraph.Sql.TypeName

/-!
# Columns and references

The definition of one column: its name, its type and what follows in any order, and the reference
of a foreign key.

* `modifier_suffix`: every modifier takes at least the token it begins with;
* `column_suffix`, `reference_suffix`: the rest is a part of what was there;
* `reference_columns_ne_nil`: a reference has a column.
-/

namespace DdlGraph.Sql

/-! ## References -/

/-- What follows `ON DELETE` or `ON UPDATE`. An action that is not known is none. -/
def action : Input → Option ReferentialAction × Input
  | [] => (none, [])
  | p :: rest =>
    if p.token = .keyword .cascade then (some .cascade, rest)
    else if p.token = .keyword .restrict then (some .restrict, rest)
    else if p.token.isWord "set" then
      match nextToken rest with
      | .keyword .null => (some .setNull, rest.tail)
      | .keyword .default => (some .setDefault, rest.tail)
      | _ => (none, rest)
    else if p.token.isWord "no" then (some .noAction, skipWord rest "action")
    else (none, p :: rest)

theorem action_suffix (ts : Input) : (action ts).2 <:+ ts := by
  unfold action
  split
  · exact List.suffix_refl _
  · rename_i p rest
    have tail : rest.tail <:+ p :: rest := (List.tail_suffix _).trans (List.suffix_cons _ _)
    repeat' split
    · exact List.suffix_cons _ _
    · exact List.suffix_cons _ _
    · exact tail
    · exact tail
    · exact List.suffix_cons _ _
    · exact (skipWord_suffix _ _).trans (List.suffix_cons _ _)
    · exact List.suffix_refl _

/-- The actions of a reference, in any order; of two for the same event the last one counts. -/
def actions (onDelete onUpdate : Option ReferentialAction) :
    Input → (Option ReferentialAction × Option ReferentialAction) × Input
  | ⟨.keyword .on, _⟩ :: rest => match rest with
    | ⟨.keyword .delete, _⟩ :: rest => actions (action rest).1 onUpdate (action rest).2
    | ⟨.keyword .update, _⟩ :: rest => actions onDelete (action rest).1 (action rest).2
    | rest => ((onDelete, onUpdate), rest)
  | ts => ((onDelete, onUpdate), ts)
termination_by ts => ts.length
decreasing_by
  all_goals
    have := (action_suffix rest).length_le
    simp only [List.length_cons]
    omega

theorem actions_suffix (onDelete onUpdate : Option ReferentialAction) (ts : Input) :
    (actions onDelete onUpdate ts).2 <:+ ts := by
  fun_induction actions onDelete onUpdate ts with
  | case1 _ _ _ _ rest ih | case2 _ _ _ _ rest ih =>
    exact ih.trans ((action_suffix rest).trans
      ((List.suffix_cons _ _).trans (List.suffix_cons _ _)))
  | case3 => exact List.suffix_cons _ _
  | case4 => exact List.suffix_refl _

/-- **Reference** after `REFERENCES`. Without columns it goes to `id`. -/
def reference (ts : Input) : Step Reference :=
  (objectName .referencedTable ts).bind fun table ts =>
    (columnList ts).bind fun columns ts =>
      let a := actions none none ts
      .ok ⟨table, if columns.isEmpty then ["id"] else columns, a.1.1, a.1.2⟩ a.2

theorem reference_suffix (ts : Input) : (reference ts).rest <:+ ts :=
  Step.bind_suffix (objectName_suffix _ _) fun _ =>
    Step.bind_suffix (columnList_suffix _) fun _ => actions_suffix none none _

theorem reference_columns_ne_nil {ts : Input} {r : Reference} (h : (reference ts).result = .ok r) :
    r.columns ≠ [] := by
  unfold reference at h
  obtain ⟨table, -, h⟩ := Step.of_bind_ok h
  obtain ⟨columns, -, h⟩ := Step.of_bind_ok h
  simp only [Step.ok, Except.ok.injEq] at h
  subst h
  by_cases hc : columns = [] <;> simp [hc]

/-- **Foreign key** after `FOREIGN`. -/
def foreignKey (ts : Input) : Step KeyDef :=
  match ts with
  | ⟨.keyword .key, _⟩ :: ts =>
    (columnList ts).bind fun columns ts =>
      if columns.isEmpty then .fail (expectedAt ts .keyColumns) ts
      else match ts with
        | ⟨.keyword .references, _⟩ :: ts =>
          (reference ts).bind fun r ts => .ok ⟨columns, r⟩ ts
        | ts => .fail (expectedAt ts .references) ts
  | ts => .fail (expectedAt ts .key) ts

theorem foreignKey_suffix (ts : Input) : (foreignKey ts).rest <:+ ts := by
  unfold foreignKey
  split
  · refine (Step.bind_suffix (columnList_suffix _) fun columns => ?_).trans (List.suffix_cons _ _)
    split
    · exact List.suffix_refl _
    · split
      · rename_i h
        rw [h]
        exact (Step.bind_suffix (reference_suffix _) fun _ => List.suffix_refl _).trans
          (List.suffix_cons _ _)
      · exact List.suffix_refl _
  · exact List.suffix_refl _

/-! ## Default values -/

/-- The words up to the parenthesis that closes `depth + 1` open ones. -/
def expressionWords (depth : Nat) : Input → List String × Input
  | [] => ([], [])
  | p :: rest =>
    let keep (word : String) (r : List String × Input) := (word :: r.1, r.2)
    match p.token with
    | .lparen => keep "(" (expressionWords (depth + 1) rest)
    | .rparen => match depth with
      | 0 => ([], rest)
      | d + 1 => keep ")" (expressionWords d rest)
    | .ident s | .num s => keep s (expressionWords depth rest)
    | .str s =>
      let doubled := s.toList.flatMap fun c => if c = '\'' then ['\'', '\''] else [c]
      keep (.ofList ('\'' :: doubled ++ ['\''])) (expressionWords depth rest)
    | .comma => keep "," (expressionWords depth rest)
    | .semicolon | .endOfText => ([], p :: rest)
    | _ => expressionWords depth rest

/-- The text of an expression after its opening parenthesis. -/
def expression (ts : Input) : String × Input :=
  let r := expressionWords 0 ts
  ("(" ++ Text.join " " r.1 ++ ")", r.2)

/-- **Default value**: a literal, a word with its call, or an expression. Anything else is the
empty text, and nothing is read. -/
def defaultValue : Input → String × Input
  | [] => ("", [])
  | p :: rest => match p.token with
    | .str s | .num s => (s, rest)
    | .keyword .null => ("NULL", rest)
    | .ident s => match rest with
      | ⟨.lparen, _⟩ :: rest =>
        let e := expression rest
        (s ++ e.1, e.2)
      | rest => (s, rest)
    | .lparen => expression rest
    | _ => ("", p :: rest)

theorem expressionWords_suffix (depth : Nat) (ts : Input) : (expressionWords depth ts).2 <:+ ts := by
  induction ts generalizing depth with
  | nil => exact List.suffix_refl _
  | cons p rest ih =>
    unfold expressionWords
    dsimp only
    split
    · exact (ih _).trans (List.suffix_cons _ _)
    · split
      · exact List.suffix_cons _ _
      · exact (ih _).trans (List.suffix_cons _ _)
    · exact (ih _).trans (List.suffix_cons _ _)
    · exact (ih _).trans (List.suffix_cons _ _)
    · exact (ih _).trans (List.suffix_cons _ _)
    · exact (ih _).trans (List.suffix_cons _ _)
    · exact List.suffix_refl _
    · exact List.suffix_refl _
    · exact (ih _).trans (List.suffix_cons _ _)

theorem defaultValue_suffix (ts : Input) : (defaultValue ts).2 <:+ ts := by
  unfold defaultValue
  split
  · exact List.suffix_refl _
  · split
    · exact List.suffix_cons _ _
    · exact List.suffix_cons _ _
    · exact List.suffix_cons _ _
    · split
      · exact (expressionWords_suffix 0 _).trans
          ((List.suffix_cons _ _).trans (List.suffix_cons _ _))
      · exact List.suffix_cons _ _
    · exact (expressionWords_suffix 0 _).trans (List.suffix_cons _ _)
    · exact List.suffix_refl _

/-! ## Types -/

/-- The parameters of a type up to the closing parenthesis: numbers and words, several of which
make one parameter with blanks between them. -/
def paramItems (params : List String) (current : String) : Input → Step (List String)
  | [] => .fail .endOfText []
  | p :: rest => match p.token with
    | .rparen => .ok (if current.isEmpty then params else params ++ [current]) rest
    | .comma => paramItems (params ++ [current]) "" rest
    | .num s | .ident s =>
      paramItems params (if current.isEmpty then s else current ++ " " ++ s) rest
    | .endOfText => .fail .endOfText (p :: rest)
    | _ => paramItems params current rest

theorem paramItems_suffix (params : List String) (current : String) (ts : Input) :
    (paramItems params current ts).rest <:+ ts := by
  induction ts generalizing params current with
  | nil => exact List.suffix_refl _
  | cons p rest ih =>
    unfold paramItems
    split
    · exact List.suffix_cons _ _
    · exact (ih _ _).trans (List.suffix_cons _ _)
    · exact (ih _ _).trans (List.suffix_cons _ _)
    · exact (ih _ _).trans (List.suffix_cons _ _)
    · exact List.suffix_refl _
    · exact (ih _ _).trans (List.suffix_cons _ _)

/-- What comes after the first word of a type: more words, a schema before the name, parameters,
array marks. -/
def typeTail (c : ColumnDef) : Input → Step ColumnDef
  | [] => .ok c []
  | p :: rest => match p.token with
    | .ident word =>
      if isTypeContinuation word then
        typeTail { c with typeName := c.typeName ++ " " ++ word } rest
      else if p.token.isWord "unsigned" || p.token.isWord "signed" then typeTail c rest
      else .ok c (p :: rest)
    | .dot => match (nextToken rest).nameText? with
      | some part => typeTail { c with typeName := part } rest.tail
      | none => typeTail c rest
    | .lparen =>
      if c.params.isEmpty then
        match _h : paramItems [] "" rest with
        | ⟨.ok params, rest'⟩ => typeTail { c with params } rest'
        | ⟨.error e, rest'⟩ => .fail e rest'
      else .ok c (p :: rest)
    | .arraySuffix => typeTail { c with typeName := c.typeName ++ "[]" } rest
    | _ => .ok c (p :: rest)
termination_by ts => ts.length
decreasing_by
  · exact Nat.lt_succ_self _
  · exact Nat.lt_succ_self _
  · exact Nat.lt_succ_of_le (List.tail_suffix rest).length_le
  · exact Nat.lt_succ_self _
  · have := (paramItems_suffix [] "" rest).length_le
    rw [_h] at this
    exact Nat.lt_succ_of_le this
  · exact Nat.lt_succ_self _

/-- **Type of a column.** Without one the column has the empty type. -/
def dataType (c : ColumnDef) : Input → Step ColumnDef
  | [] => .ok c []
  | p :: rest => match p.token with
    | .keyword .enum =>
      (stringList rest).bind fun values rest =>
        .ok { c with typeName := "enum", inlineValues := some values } rest
    | .ident t | .quotedIdent t => typeTail { c with typeName := t } rest
    | _ => .ok c (p :: rest)

/-- **Parameters** stand in front of the rest of a type. -/
theorem typeTail_lparen {c : ColumnDef} {p : Placed} (hp : p.token = .lparen)
    (hc : c.params.isEmpty) (rest : Input) :
    typeTail c (p :: rest) =
      (paramItems [] "" rest).bind fun params ts => typeTail { c with params } ts := by
  rw [typeTail, hp]
  dsimp only
  rw [if_pos hc]
  split
  · rename_i h
    rw [h]
    rfl
  · rename_i h
    rw [h]
    rfl

theorem typeTail_suffix (c : ColumnDef) (ts : Input) : (typeTail c ts).rest <:+ ts := by
  fun_induction typeTail c ts with
  | case1 | case4 | case9 | case11 => exact List.suffix_refl _
  | case2 | case3 | case6 | case10 => exact List.IsSuffix.trans ‹_› (List.suffix_cons _ _)
  | case5 _ _ rest _ _ _ ih =>
    exact ih.trans ((List.tail_suffix rest).trans (List.suffix_cons _ _))
  | case7 _ _ rest _ _ params rest' h ih =>
    have := paramItems_suffix [] "" rest
    rw [h] at this
    exact ih.trans (this.trans (List.suffix_cons _ _))
  | case8 _ _ rest _ _ e rest' h =>
    have := paramItems_suffix [] "" rest
    rw [h] at this
    exact this.trans (List.suffix_cons _ _)

theorem dataType_suffix (c : ColumnDef) (ts : Input) : (dataType c ts).rest <:+ ts := by
  unfold dataType
  split
  · exact List.suffix_refl _
  · split
    · exact (Step.bind_suffix (stringList_suffix _) fun _ => List.suffix_refl _).trans
        (List.suffix_cons _ _)
    · exact (typeTail_suffix _ _).trans (List.suffix_cons _ _)
    · exact (typeTail_suffix _ _).trans (List.suffix_cons _ _)
    · exact List.suffix_refl _

/-! ## Modifiers -/

/-- The values of `(column IN ('a', 'b'))`, if a check has just this form. -/
def listedValues? (column : String) : Input → Option (List String × Input)
  | ⟨.lparen, _⟩ :: name :: word :: list =>
    if name.token.nameText?.any (Text.sameAscii · column) && word.token.isWord "in" then
      match stringList list with
      | ⟨.ok values, ⟨.rparen, _⟩ :: rest⟩ => some (values, rest)
      | _ => none
    else none
  | _ => none

/-- A check, after its keyword: the values it lists, or nothing. -/
def check (c : ColumnDef) (ts : Input) : ColumnDef × Input :=
  match listedValues? c.name ts with
  | some (values, rest) => ({ c with inlineValues := some values }, rest)
  | none => (c, skipParens ts)

/-- **Modifier** of a column that begins with the token `t`. Tokens without a meaning here are
passed over. -/
def modifier (c : ColumnDef) (t : Token) (rest : Input) : Step ColumnDef :=
  match t with
  | .keyword .primary => .ok { c with primary := true } (skipToken rest (.keyword .key))
  | .keyword .not =>
    if nextToken rest = .keyword .null then .ok { c with notNull := true } rest.tail else .ok c rest
  | .keyword .unique => .ok { c with unique := true } (skipToken rest (.keyword .key))
  | .keyword .default =>
    let d := defaultValue rest
    .ok { c with defaultValue := some d.1 } d.2
  | .keyword .references => (reference rest).bind fun r rest => .ok { c with reference := some r } rest
  | .keyword .auto =>
    if nextToken rest = .keyword .increment then .ok { c with autoIncrement := true } rest.tail
    else .ok c rest
  | .keyword .increment => .ok { c with autoIncrement := true } rest
  | .keyword .check =>
    let r := check c rest
    .ok r.1 r.2
  | .keyword .constraint => .ok c (skipName rest)
  | .keyword .on =>
    if nextToken rest = .keyword .update ∨ nextToken rest = .keyword .delete then .ok c rest.tail
    else .ok c rest
  | .lparen => .ok c (closeParens 0 rest)
  | _ => .ok c rest

theorem listedValues?_suffix {column : String} {ts rest : Input} {values : List String}
    (h : listedValues? column ts = some (values, rest)) : rest <:+ ts := by
  unfold listedValues? at h
  split at h
  · rename_i list
    split at h
    · have hs := stringList_suffix list
      split at h
      · rename_i values' rest' hl
        rw [hl] at hs
        simp only [Option.some.injEq, Prod.mk.injEq] at h
        obtain ⟨-, rfl⟩ := h
        exact ((List.suffix_cons _ _).trans hs).trans ((List.suffix_cons _ _).trans
          ((List.suffix_cons _ _).trans (List.suffix_cons _ _)))
      · simp at h
    · simp at h
  · simp at h

theorem check_suffix (c : ColumnDef) (ts : Input) : (check c ts).2 <:+ ts := by
  unfold check
  split
  · rename_i values rest h
    exact listedValues?_suffix h
  · exact skipParens_suffix ts

theorem modifier_suffix (c : ColumnDef) (t : Token) (rest : Input) :
    (modifier c t rest).rest <:+ rest := by
  unfold modifier
  split
  · exact skipToken_suffix _ _
  · split
    · exact List.tail_suffix _
    · exact List.suffix_refl _
  · exact skipToken_suffix _ _
  · exact defaultValue_suffix rest
  · exact Step.bind_suffix (reference_suffix _) fun _ => List.suffix_refl _
  · split
    · exact List.tail_suffix _
    · exact List.suffix_refl _
  · exact List.suffix_refl _
  · exact check_suffix c rest
  · exact skipName_suffix _
  · split
    · exact List.tail_suffix _
    · exact List.suffix_refl _
  · exact closeParens_suffix 0 rest
  · exact List.suffix_refl _

/-- Modifiers up to the end of the column. -/
def modifiers (c : ColumnDef) : Input → Step ColumnDef
  | [] => .ok c []
  | p :: rest =>
    if p.token ∈ [.comma, .rparen, .semicolon, .endOfText] then .ok c (p :: rest)
    else match _h : modifier c p.token rest with
      | ⟨.ok c', rest'⟩ => modifiers c' rest'
      | ⟨.error e, rest'⟩ => .fail e rest'
termination_by ts => ts.length
decreasing_by
  have := (modifier_suffix c p.token rest).length_le
  rw [_h] at this
  exact Nat.lt_succ_of_le this

/-- **One modifier** is read before the others. -/
theorem modifiers_cons {p : Placed} (hp : p.token ∉ [Token.comma, .rparen, .semicolon, .endOfText])
    (c : ColumnDef) (rest : Input) :
    modifiers c (p :: rest) = (modifier c p.token rest).bind modifiers := by
  rw [modifiers, if_neg hp]
  split
  · rename_i h
    rw [h]
    rfl
  · rename_i h
    rw [h]
    rfl

theorem modifiers_suffix (c : ColumnDef) (ts : Input) : (modifiers c ts).rest <:+ ts := by
  fun_induction modifiers c ts with
  | case1 | case2 => exact List.suffix_refl _
  | case3 c p rest _ c' rest' h ih =>
    have := modifier_suffix c p.token rest
    rw [h] at this
    exact ih.trans (this.trans (List.suffix_cons _ _))
  | case4 c p rest _ e rest' h =>
    have := modifier_suffix c p.token rest
    rw [h] at this
    exact this.trans (List.suffix_cons _ _)

/-- **Column** after its name. -/
def column (name : String) (ts : Input) : Step ColumnDef :=
  (dataType { name } ts).bind modifiers

theorem column_suffix (name : String) (ts : Input) : (column name ts).rest <:+ ts :=
  Step.bind_suffix (dataType_suffix _ _) fun c => modifiers_suffix c _

end DdlGraph.Sql
