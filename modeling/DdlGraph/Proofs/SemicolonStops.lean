import DdlGraph.Proofs.MarkStops

/-!
# A semicolon stops what passes over

Behind a statement that is wrong reading goes on at the next semicolon. What is passed over, and
what is read without a list in parentheses that has to be closed, stops there as it stops at the end
of the tokens: nothing behind the semicolon decides what it is.

* `closeParens_stops`, `skipItem_stops`: passing over stops at the semicolon;
* `objectName?_stops`, `actions_stops`, `defaultValue_stops`: so do names, actions and defaults;
* `check_stops`: the values of a check count only if their list is closed before it.
-/

namespace DdlGraph.Sql

/-- The semicolon, on line `n`. -/
def semicolonAt (n : Nat) : Placed :=
  ⟨.semicolon, n⟩

theorem isMark_semicolonAt (n : Nat) : IsMark (semicolonAt n).token :=
  .inr (.inr (.inl rfl))

/-! ## What is passed over -/

section
variable (n : Nat) (more : Input)

theorem skipToken_stops {t : Token} (ht : ¬ IsMark t) (ts : Input) :
    skipToken (ts ++ semicolonAt n :: more) t = skipToken ts t ++ semicolonAt n :: more :=
  skipToken_mark (isMark_semicolonAt n) more ht ts

theorem skipWord_stops (word : String) (ts : Input) :
    skipWord (ts ++ semicolonAt n :: more) word = skipWord ts word ++ semicolonAt n :: more :=
  skipWord_mark (isMark_semicolonAt n) more word ts

theorem skipName_stops (ts : Input) :
    skipName (ts ++ semicolonAt n :: more) = skipName ts ++ semicolonAt n :: more :=
  skipName_mark (isMark_semicolonAt n) more ts

theorem closeParens_stops (depth : Nat) (ts : Input) :
    closeParens depth (ts ++ semicolonAt n :: more) =
      closeParens depth ts ++ semicolonAt n :: more := by
  induction ts generalizing depth with
  | nil => rfl
  | cons p rest ih =>
    rw [List.cons_append]
    unfold closeParens
    split
    · exact ih _
    · cases depth with
      | zero => rfl
      | succ d => exact ih d
    · rfl
    · rfl
    · exact ih _

theorem skipParens_stops (ts : Input) :
    skipParens (ts ++ semicolonAt n :: more) = skipParens ts ++ semicolonAt n :: more := by
  cases ts with
  | nil => rfl
  | cons p rest =>
    obtain ⟨t, line⟩ := p
    cases t with
    | lparen => exact closeParens_stops n more 0 rest
    | _ => rfl

theorem skipItem_stops (ts : Input) :
    skipItem (ts ++ semicolonAt n :: more) = skipItem ts ++ semicolonAt n :: more := by
  fun_induction skipItem ts with
  | case1 => rw [List.nil_append, skipItem]; rfl
  | case2 p rest h | case3 p rest h | case4 p rest h | case5 p rest h =>
    simp [skipItem, h]
  | case6 p rest h ih =>
    rw [List.cons_append, skipItem, h]
    dsimp only
    rw [closeParens_stops, ih]
  | case7 p rest h1 h2 h3 h4 h5 ih =>
    rw [List.cons_append, skipItem]
    split
    · exact (h1 ‹_›).elim
    · exact (h2 ‹_›).elim
    · exact (h3 ‹_›).elim
    · exact (h4 ‹_›).elim
    · exact (h5 ‹_›).elim
    · exact ih

theorem skipIfNotExists_stops (ts : Input) :
    skipIfNotExists (ts ++ semicolonAt n :: more) =
      skipIfNotExists ts ++ semicolonAt n :: more :=
  skipIfNotExists_mark (isMark_semicolonAt n) more ts

theorem skipTableKinds_stops (ts : Input) :
    skipTableKinds (ts ++ semicolonAt n :: more) = skipTableKinds ts ++ semicolonAt n :: more :=
  skipTableKinds_mark (isMark_semicolonAt n) more ts

theorem skipOrReplace_stops (ts : Input) :
    skipOrReplace (ts ++ semicolonAt n :: more) = skipOrReplace ts ++ semicolonAt n :: more :=
  skipOrReplace_mark (isMark_semicolonAt n) more ts

/-! ## Names, actions and defaults -/

theorem objectName?_stops (ts : Input) :
    objectName? (ts ++ semicolonAt n :: more) =
      (objectName? ts).map fun r => (r.1, r.2 ++ semicolonAt n :: more) :=
  objectName?_mark (isMark_semicolonAt n) more ts

theorem skipIndexName_stops (ts : Input) :
    skipIndexName (ts ++ semicolonAt n :: more) = skipIndexName ts ++ semicolonAt n :: more := by
  cases ts with
  | nil => rfl
  | cons p rest =>
    have hname := objectName?_stops n more (p :: rest)
    unfold skipIndexName
    by_cases h : p.token = .keyword .on
    · simp [nextToken, h]
    · rw [hname]
      simp only [List.cons_append, nextToken, h, if_false]
      cases objectName? (p :: rest) <;> rfl

theorem actions_stops (d u : Option ReferentialAction) (ts : Input) :
    actions d u (ts ++ semicolonAt n :: more) =
      ((actions d u ts).1, (actions d u ts).2 ++ semicolonAt n :: more) :=
  actions_mark (isMark_semicolonAt n) more d u ts

theorem expressionWords_stops (depth : Nat) (ts : Input) :
    expressionWords depth (ts ++ semicolonAt n :: more) =
      ((expressionWords depth ts).1, (expressionWords depth ts).2 ++ semicolonAt n :: more) := by
  induction ts generalizing depth with
  | nil => rfl
  | cons p rest ih =>
    rw [List.cons_append]
    unfold expressionWords
    dsimp only
    split
    · rw [ih]
    · cases depth with
      | zero => rfl
      | succ d => simp only [ih]
    · rw [ih]
    · rw [ih]
    · rw [ih]
    · rw [ih]
    · rfl
    · rfl
    · rw [ih]

theorem expression_stops (ts : Input) :
    expression (ts ++ semicolonAt n :: more) =
      ((expression ts).1, (expression ts).2 ++ semicolonAt n :: more) := by
  unfold expression
  rw [expressionWords_stops]

theorem defaultValue_stops (ts : Input) :
    defaultValue (ts ++ semicolonAt n :: more) =
      ((defaultValue ts).1, (defaultValue ts).2 ++ semicolonAt n :: more) := by
  cases ts with
  | nil => rfl
  | cons p rest =>
    obtain ⟨t, line⟩ := p
    cases t with
    | keyword k => cases k <;> rfl
    | lparen => exact expression_stops n more rest
    | ident s =>
      cases rest with
      | nil => rfl
      | cons q rest =>
        obtain ⟨t, line⟩ := q
        cases t with
        | lparen =>
          show (s ++ (expression (rest ++ _)).1, (expression (rest ++ _)).2) = _
          rw [expression_stops]
          rfl
        | _ => rfl
    | _ => rfl

/-! ## Checks -/

/-- What a production gives, if it gives something, and what it leaves. -/
def Step.value? {α : Type} (s : Step α) : Option (α × Input) :=
  match s.result with
  | .ok a => some (a, s.rest)
  | .error _ => none

theorem stringItems_stops (values : List String) (ts : Input) :
    (stringItems values (ts ++ semicolonAt n :: more)).value? =
      (stringItems values ts).value?.map fun r => (r.1, r.2 ++ semicolonAt n :: more) := by
  induction ts generalizing values with
  | nil => rfl
  | cons p rest ih =>
    rw [List.cons_append]
    unfold stringItems
    split
    · exact ih _
    · exact ih _
    · rfl
    · rfl
    · rfl

theorem stringList_stops (ts : Input) :
    (stringList (ts ++ semicolonAt n :: more)).value? =
      (stringList ts).value?.map fun r => (r.1, r.2 ++ semicolonAt n :: more) := by
  cases ts with
  | nil => rfl
  | cons p rest =>
    obtain ⟨t, line⟩ := p
    cases t with
    | lparen => exact stringItems_stops n more [] rest
    | _ => rfl

/-- The values of a list that a closing parenthesis follows. -/
def closedValues? (r : List String × Input) : Option (List String × Input) :=
  match r.2 with
  | ⟨.rparen, _⟩ :: rest => some (r.1, rest)
  | _ => none

theorem closedValues?_stops (r : List String × Input) :
    closedValues? (r.1, r.2 ++ semicolonAt n :: more) =
      (closedValues? r).map fun r => (r.1, r.2 ++ semicolonAt n :: more) := by
  obtain ⟨values, ts⟩ := r
  cases ts with
  | nil => rfl
  | cons p rest =>
    obtain ⟨t, line⟩ := p
    cases t <;> rfl

theorem listedValues?_lparen (column : String) (line : Nat) (name word : Placed) (list : Input) :
    listedValues? column (⟨.lparen, line⟩ :: name :: word :: list) =
      if name.token.nameText?.any (Text.sameAscii · column) && word.token.isWord "in" then
        (stringList list).value?.bind closedValues?
      else none := by
  unfold listedValues?
  dsimp only
  congr 1
  obtain ⟨result, rest⟩ := stringList list
  cases result with
  | error e => rfl
  | ok values =>
    cases rest with
    | nil => rfl
    | cons p rest =>
      obtain ⟨t, l⟩ := p
      cases t <;> rfl

theorem listedValues?_stops (column : String) (ts : Input) :
    listedValues? column (ts ++ semicolonAt n :: more) =
      (listedValues? column ts).map fun r => (r.1, r.2 ++ semicolonAt n :: more) := by
  match ts with
  | [] => rfl
  | [⟨t, line⟩] => cases t <;> cases more <;> rfl
  | [⟨t, line⟩, name] =>
    cases t with
    | lparen =>
      show listedValues? column (⟨.lparen, line⟩ :: name :: semicolonAt n :: more) = none
      rw [listedValues?_lparen]
      simp [semicolonAt, Token.isWord]
    | _ => rfl
  | ⟨t, line⟩ :: name :: word :: list =>
    cases t with
    | lparen =>
      simp only [List.cons_append, listedValues?_lparen]
      split
      · rw [stringList_stops]
        cases (stringList list).value? with
        | none => rfl
        | some r => exact closedValues?_stops n more r
      · rfl
    | _ => rfl

theorem check_stops (c : ColumnDef) (ts : Input) :
    check c (ts ++ semicolonAt n :: more) =
      ((check c ts).1, (check c ts).2 ++ semicolonAt n :: more) := by
  unfold check
  rw [listedValues?_stops, skipParens_stops]
  cases listedValues? c.name ts <;> rfl

theorem isIndexItem_stops (ts : Input) :
    isIndexItem (ts ++ semicolonAt n :: more) = isIndexItem ts :=
  isIndexItem_mark (isMark_semicolonAt n) more ts

end

end DdlGraph.Sql
