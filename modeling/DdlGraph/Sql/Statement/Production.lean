import DdlGraph.Sql.Statement.Basic

/-!
# Productions

A production reads the tokens at the start of a list. Whether it succeeds or fails it leaves a rest,
and the rest is a part of the list, its end (`List.IsSuffix`). This file has what productions are
made of: names, things in parentheses that are passed over, and lists in parentheses.

* `skipParens_suffix`, `skipItem_suffix`, `skipStatement_suffix`, `columnList_suffix`: nothing is
  read twice.
-/

namespace DdlGraph.Sql

/-- The tokens that are left to read. -/
abbrev Input := List Placed

/-- The token that comes next; after the last one the text has ended. -/
def nextToken : Input → Token
  | [] => .endOfText
  | p :: _ => p.token

/-- A value or an error, and the tokens left over. -/
structure Step (α : Type) where
  result : Except SyntaxError α
  rest : Input

namespace Step

variable {α β : Type}

def ok (a : α) (rest : Input) : Step α :=
  ⟨.ok a, rest⟩

def fail (e : SyntaxError) (rest : Input) : Step α :=
  ⟨.error e, rest⟩

/-- Goes on with the value, at the rest; an error stays. -/
def bind (s : Step α) (f : α → Input → Step β) : Step β :=
  match s.result with
  | .ok a => f a s.rest
  | .error e => ⟨.error e, s.rest⟩

theorem bind_suffix {s : Step α} {f : α → Input → Step β} {ts : Input} (h : s.rest <:+ ts)
    (hf : ∀ a, (f a s.rest).rest <:+ s.rest) : (s.bind f).rest <:+ ts := by
  unfold bind
  split
  · rename_i a _
    exact (hf a).trans h
  · exact h

theorem of_bind_ok {s : Step α} {f : α → Input → Step β} {b : β}
    (h : (s.bind f).result = .ok b) : ∃ a, s.result = .ok a ∧ (f a s.rest).result = .ok b := by
  unfold bind at h
  split at h
  · exact ⟨_, ‹_›, h⟩
  · simp at h

end Step

/-- The error of a production that needs `wanted` next. -/
def expectedAt (ts : Input) (wanted : Wanted) : SyntaxError :=
  match ts with
  | [] => .endOfText
  | p :: _ => if p.token = .endOfText then .endOfText else .expected p.line wanted p.token

/-- The token `t`, if it comes next, is passed over. -/
def skipToken (ts : Input) (t : Token) : Input :=
  match ts with
  | [] => []
  | p :: rest => if p.token = t then rest else ts

/-- The word `word`, if it comes next, is passed over. -/
def skipWord (ts : Input) (word : String) : Input :=
  match ts with
  | [] => []
  | p :: rest => if p.token.isWord word then rest else ts

/-- A name, if one comes next, is passed over. -/
def skipName (ts : Input) : Input :=
  match ts with
  | [] => []
  | p :: rest => if p.token.nameText?.isSome then rest else ts

theorem skipToken_suffix (ts : Input) (t : Token) : skipToken ts t <:+ ts := by
  unfold skipToken
  split
  · exact List.suffix_refl _
  · split
    · exact List.suffix_cons _ _
    · exact List.suffix_refl _

theorem skipWord_suffix (ts : Input) (word : String) : skipWord ts word <:+ ts := by
  unfold skipWord
  split
  · exact List.suffix_refl _
  · split
    · exact List.suffix_cons _ _
    · exact List.suffix_refl _

theorem skipName_suffix (ts : Input) : skipName ts <:+ ts := by
  unfold skipName
  split
  · exact List.suffix_refl _
  · split
    · exact List.suffix_cons _ _
    · exact List.suffix_refl _

/-! ## Names -/

/-- The last part of a name that goes on after `name`. -/
def nameParts (name : String) : Input → String × Input
  | ⟨.dot, _⟩ :: p :: rest => match p.token.nameText? with
    | some part => nameParts part rest
    | none => (name, p :: rest)
  | [⟨.dot, _⟩] => (name, [])
  | ts => (name, ts)

/-- **Name of an object**: of a name in several parts the last one. -/
def objectName? : Input → Option (String × Input)
  | [] => none
  | p :: rest => p.token.nameText?.map fun name => nameParts name rest

/-- The name of an object, which has to come next. -/
def objectName (wanted : Wanted) (ts : Input) : Step String :=
  match objectName? ts with
  | some (name, rest) => .ok name rest
  | none => .fail (expectedAt ts wanted) ts

theorem nameParts_suffix (name : String) (ts : Input) : (nameParts name ts).2 <:+ ts := by
  fun_induction nameParts name ts with
  | case1 name line p rest part _ ih =>
    exact ih.trans ((List.suffix_cons _ _).trans (List.suffix_cons _ _))
  | case2 name line p rest => exact List.suffix_cons _ _
  | case3 => exact List.suffix_cons _ _
  | case4 => exact List.suffix_refl _

theorem objectName?_suffix {ts rest : Input} {name : String}
    (h : objectName? ts = some (name, rest)) : rest <:+ ts.tail := by
  unfold objectName? at h
  split at h
  · simp at h
  · obtain ⟨part, _, hp⟩ := Option.map_eq_some_iff.1 h
    have := nameParts_suffix part ‹_›
    rw [hp] at this
    exact this

theorem objectName_suffix (wanted : Wanted) (ts : Input) : (objectName wanted ts).rest <:+ ts := by
  unfold objectName
  split
  · rename_i h
    exact (objectName?_suffix h).trans (List.tail_suffix ts)
  · exact List.suffix_refl _

/-! ## Passing over -/

/-- What follows the parenthesis that closes `depth + 1` open ones. A semicolon or the end of the
text stops the search. -/
def closeParens (depth : Nat) : Input → Input
  | [] => []
  | p :: rest => match p.token with
    | .lparen => closeParens (depth + 1) rest
    | .rparen => match depth with
      | 0 => rest
      | d + 1 => closeParens d rest
    | .semicolon | .endOfText => p :: rest
    | _ => closeParens depth rest

/-- What follows a pair of parentheses with all that is in it. -/
def skipParens : Input → Input
  | ⟨.lparen, _⟩ :: rest => closeParens 0 rest
  | ts => ts

theorem closeParens_suffix (depth : Nat) (ts : Input) : closeParens depth ts <:+ ts := by
  induction ts generalizing depth with
  | nil => exact List.suffix_refl _
  | cons p rest ih =>
    unfold closeParens
    split
    · exact (ih _).trans (List.suffix_cons _ _)
    · split
      · exact List.suffix_cons _ _
      · exact (ih _).trans (List.suffix_cons _ _)
    · exact List.suffix_refl _
    · exact List.suffix_refl _
    · exact (ih _).trans (List.suffix_cons _ _)

theorem skipParens_suffix (ts : Input) : skipParens ts <:+ ts := by
  unfold skipParens
  split
  · exact (closeParens_suffix 0 _).trans (List.suffix_cons _ _)
  · exact List.suffix_refl _

/-- What follows an item of a list: a comma, the closing parenthesis, or the end. -/
def skipItem : Input → Input
  | [] => []
  | p :: rest => match p.token with
    | .comma | .rparen | .semicolon | .endOfText => p :: rest
    | .lparen => skipItem (closeParens 0 rest)
    | _ => skipItem rest
termination_by ts => ts.length
decreasing_by
  · exact Nat.lt_succ_of_le (closeParens_suffix 0 rest).length_le
  · exact Nat.lt_succ_self _

theorem skipItem_suffix (ts : Input) : skipItem ts <:+ ts := by
  fun_induction skipItem ts with
  | case1 | case2 | case3 | case4 | case5 => exact List.suffix_refl _
  | case6 p rest _ ih =>
    exact ih.trans ((closeParens_suffix 0 rest).trans (List.suffix_cons _ _))
  | case7 p rest _ _ _ _ _ ih => exact ih.trans (List.suffix_cons _ _)

/-- What follows a statement and its semicolon. -/
def skipStatement : Input → Input
  | [] => []
  | p :: rest =>
    if p.token = .semicolon then rest
    else if p.token = .endOfText then p :: rest
    else skipStatement rest

theorem skipStatement_suffix (ts : Input) : skipStatement ts <:+ ts := by
  fun_induction skipStatement ts with
  | case1 => exact List.suffix_refl _
  | case2 => exact List.suffix_cons _ _
  | case3 => exact List.suffix_refl _
  | case4 p rest _ _ ih => exact ih.trans (List.suffix_cons _ _)

/-! ## Lists -/

/-- The strings up to the closing parenthesis, after those of `values`. -/
def stringItems (values : List String) : Input → Step (List String)
  | [] => .fail .endOfText []
  | p :: rest => match p.token with
    | .str s => stringItems (values ++ [s]) rest
    | .comma => stringItems values rest
    | .rparen => .ok values rest
    | .endOfText => .fail .endOfText (p :: rest)
    | found => .fail (.unexpected p.line found) (p :: rest)

/-- **Strings in parentheses**, with any number of commas. -/
def stringList : Input → Step (List String)
  | ⟨.lparen, _⟩ :: rest => stringItems [] rest
  | ts => .fail (expectedAt ts .openParen) ts

theorem stringItems_suffix (values : List String) (ts : Input) :
    (stringItems values ts).rest <:+ ts := by
  induction ts generalizing values with
  | nil => exact List.suffix_refl _
  | cons p rest ih =>
    unfold stringItems
    split
    · exact (ih _).trans (List.suffix_cons _ _)
    · exact (ih _).trans (List.suffix_cons _ _)
    · exact List.suffix_cons _ _
    · exact List.suffix_refl _
    · exact List.suffix_refl _

theorem stringList_suffix (ts : Input) : (stringList ts).rest <:+ ts := by
  unfold stringList
  split
  · exact (stringItems_suffix [] _).trans (List.suffix_cons _ _)
  · exact List.suffix_refl _

/-- The columns up to the closing parenthesis. A name counts where an item begins (`fresh`): what
stands behind it, a length or a direction, does not. -/
def columnItems (columns : List String) (fresh : Bool) : Input → Step (List String)
  | [] => .fail .endOfText []
  | p :: rest => match p.token with
    | .rparen => .ok columns rest
    | .comma => columnItems columns true rest
    | .lparen => columnItems columns false (closeParens 0 rest)
    | .endOfText => .fail .endOfText (p :: rest)
    | t => match t.nameText? with
      | some name => columnItems (if fresh then columns ++ [name] else columns) false rest
      | none => columnItems columns false rest
termination_by ts => ts.length
decreasing_by
  all_goals first
    | exact Nat.lt_succ_self _
    | exact Nat.lt_succ_of_le (closeParens_suffix 0 rest).length_le

/-- **Columns in parentheses**; none without parentheses. -/
def columnList : Input → Step (List String)
  | ⟨.lparen, _⟩ :: rest => columnItems [] true rest
  | ts => .ok [] ts

theorem columnItems_suffix (columns : List String) (fresh : Bool) (ts : Input) :
    (columnItems columns fresh ts).rest <:+ ts := by
  fun_induction columnItems columns fresh ts with
  | case1 | case5 => exact List.suffix_refl _
  | case2 => exact List.suffix_cons _ _
  | case3 _ _ _ _ _ ih => exact ih.trans (List.suffix_cons _ _)
  | case4 _ _ _ rest _ ih =>
    exact ih.trans ((closeParens_suffix 0 rest).trans (List.suffix_cons _ _))
  | case6 _ _ _ _ _ _ _ _ _ _ ih => exact ih.trans (List.suffix_cons _ _)
  | case7 _ _ _ _ _ _ _ _ _ ih => exact ih.trans (List.suffix_cons _ _)

theorem columnList_suffix (ts : Input) : (columnList ts).rest <:+ ts := by
  unfold columnList
  split
  · exact (columnItems_suffix [] true _).trans (List.suffix_cons _ _)
  · exact List.suffix_refl _

end DdlGraph.Sql
