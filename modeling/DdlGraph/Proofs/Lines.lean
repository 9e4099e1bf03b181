import DdlGraph.Proofs.Lexing
import DdlGraph.Sql.Statement.Reader

/-!
# Reading does not look at lines

A line is handed on to errors and to definitions of tables, and nothing is decided by it. If the
lines of all tokens change, so do the lines in what is read, and that is all.

* `Script.ofTokens_relined`: the script of tokens on other lines;
* `Script.ofText_reline`: the statements of a text are those of its tokens alone.
-/

namespace DdlGraph.Sql

/-! ## Other lines -/

/-- The token, on another line. -/
def Placed.reline (f : Nat → Nat) (p : Placed) : Placed :=
  { p with line := f p.line }

/-- The tokens, each on another line. -/
def relined (f : Nat → Nat) (ts : Input) : Input :=
  ts.map (Placed.reline f)

def SyntaxError.reline (f : Nat → Nat) : SyntaxError → SyntaxError
  | .unexpected line found => .unexpected (f line) found
  | .expected line wanted found => .expected (f line) wanted found
  | .endOfText => .endOfText

def TableDef.reline (f : Nat → Nat) (t : TableDef) : TableDef :=
  { t with line := f t.line }

def Statement.reline (f : Nat → Nat) : Statement → Statement
  | .createTable table => .createTable (table.reline f)
  | .malformedTable name line => .malformedTable name (f line)
  | s => s

def Script.reline (f : Nat → Nat) (s : Script) : Script where
  statements := s.statements.map (Statement.reline f)
  errors := s.errors.map (SyntaxError.reline f)

/-- The outcome of a production, on other lines; `g` is what they do to its value. -/
def Step.reline {α : Type} (f : Nat → Nat) (g : α → α) (s : Step α) : Step α where
  result := match s.result with
    | .ok a => .ok (g a)
    | .error e => .error (e.reline f)
  rest := relined f s.rest

section
variable {α β : Type} (f : Nat → Nat)

theorem relined_nil : relined f [] = [] :=
  rfl

theorem relined_cons (p : Placed) (ts : Input) :
    relined f (p :: ts) = p.reline f :: relined f ts :=
  rfl

theorem relined_tail (ts : Input) : (relined f ts).tail = relined f ts.tail := by
  cases ts <;> rfl

theorem Placed.reline_token (p : Placed) : (p.reline f).token = p.token :=
  rfl

theorem nextToken_relined (ts : Input) : nextToken (relined f ts) = nextToken ts := by
  cases ts <;> rfl

theorem Step.reline_fail (g : α → α) (e : SyntaxError) (ts : Input) :
    (Step.fail e ts : Step α).reline f g = .fail (e.reline f) (relined f ts) :=
  rfl

theorem Step.ok_bind (a : α) (ts : Input) (k : α → Input → Step β) : (Step.ok a ts).bind k = k a ts :=
  rfl

/-- **Going on** after a production on other lines. -/
theorem Step.bind_reline {g : α → α} {g' : β → β} {s : Step α} {k k' : α → Input → Step β}
    (hk : ∀ a ts, k' (g a) (relined f ts) = (k a ts).reline f g') :
    (s.reline f g).bind k' = (s.bind k).reline f g' := by
  obtain ⟨result, rest⟩ := s
  cases result with
  | ok a => exact hk a rest
  | error e => rfl

theorem expectedAt_relined (ts : Input) (wanted : Wanted) :
    expectedAt (relined f ts) wanted = (expectedAt ts wanted).reline f := by
  cases ts with
  | nil => rfl
  | cons p rest =>
    rw [relined_cons]
    unfold expectedAt
    dsimp only [Placed.reline]
    split <;> rfl

/-! ## Passing over -/

theorem skipToken_relined (ts : Input) (t : Token) :
    skipToken (relined f ts) t = relined f (skipToken ts t) := by
  cases ts with
  | nil => rfl
  | cons p rest =>
    rw [relined_cons]
    unfold skipToken
    dsimp only [Placed.reline]
    split <;> rfl

theorem skipWord_relined (ts : Input) (word : String) :
    skipWord (relined f ts) word = relined f (skipWord ts word) := by
  cases ts with
  | nil => rfl
  | cons p rest =>
    rw [relined_cons]
    unfold skipWord
    dsimp only [Placed.reline]
    split <;> rfl

theorem skipName_relined (ts : Input) : skipName (relined f ts) = relined f (skipName ts) := by
  cases ts with
  | nil => rfl
  | cons p rest =>
    rw [relined_cons]
    unfold skipName
    dsimp only [Placed.reline]
    split <;> rfl

theorem closeParens_relined (depth : Nat) (ts : Input) :
    closeParens depth (relined f ts) = relined f (closeParens depth ts) := by
  induction ts generalizing depth with
  | nil => rfl
  | cons p rest ih =>
    rw [relined_cons]
    unfold closeParens
    dsimp only [Placed.reline]
    split
    · exact ih _
    · split
      · rfl
      · exact ih _
    · rfl
    · rfl
    · exact ih _

theorem skipParens_relined (ts : Input) :
    skipParens (relined f ts) = relined f (skipParens ts) := by
  cases ts with
  | nil => rfl
  | cons p rest =>
    obtain ⟨t, line⟩ := p
    cases t with
    | lparen => exact closeParens_relined f 0 rest
    | _ => rfl

theorem skipItem_relined (ts : Input) : skipItem (relined f ts) = relined f (skipItem ts) := by
  fun_induction skipItem ts with
  | case1 => rw [relined_nil, skipItem]
  | case2 p rest h | case3 p rest h | case4 p rest h | case5 p rest h =>
    rw [relined_cons, skipItem, Placed.reline_token, h]
  | case6 p rest h ih =>
    rw [relined_cons, skipItem, Placed.reline_token, h]
    dsimp only
    rw [closeParens_relined, ih]
  | case7 p rest h1 h2 h3 h4 h5 ih =>
    rw [relined_cons, skipItem, Placed.reline_token]
    split
    · exact (h1 ‹_›).elim
    · exact (h2 ‹_›).elim
    · exact (h3 ‹_›).elim
    · exact (h4 ‹_›).elim
    · exact (h5 ‹_›).elim
    · exact ih

theorem skipStatement_relined (ts : Input) :
    skipStatement (relined f ts) = relined f (skipStatement ts) := by
  fun_induction skipStatement ts with
  | case1 => rfl
  | case2 p rest h => rw [relined_cons, skipStatement, Placed.reline_token, if_pos h]
  | case3 p rest h h' =>
    rw [relined_cons, skipStatement, Placed.reline_token, if_neg h, if_pos h']
  | case4 p rest h h' ih =>
    rw [relined_cons, skipStatement, Placed.reline_token, if_neg h, if_neg h', ih]

/-! ## Names and lists -/

/-- A name without a point behind it is its only part. -/
theorem nameParts_of_not_dot {name : String} {ts : Input} (h : nextToken ts ≠ .dot) :
    nameParts name ts = (name, ts) := by
  cases ts with
  | nil => rfl
  | cons p ts =>
    obtain ⟨t, line⟩ := p
    cases t with
    | dot => exact absurd rfl h
    | _ => cases ts <;> rfl

theorem nameParts_relined (name : String) (ts : Input) :
    nameParts name (relined f ts) =
      ((nameParts name ts).1, relined f (nameParts name ts).2) := by
  fun_induction nameParts name ts with
  | case1 name line p rest part h ih =>
    rw [relined_cons, relined_cons]
    dsimp only [Placed.reline]
    rw [nameParts, h]
    exact ih
  | case2 name line p rest h =>
    rw [relined_cons, relined_cons]
    dsimp only [Placed.reline]
    rw [nameParts, h]
  | case3 name line => rfl
  | case4 name ts h1 h2 =>
    refine nameParts_of_not_dot ?_
    rw [nextToken_relined]
    cases ts with
    | nil => exact nofun
    | cons p ts =>
      obtain ⟨t, line⟩ := p
      rintro rfl
      cases ts with
      | nil => exact h2 line rfl
      | cons q ts => exact h1 line q ts rfl

theorem objectName?_relined (ts : Input) :
    objectName? (relined f ts) =
      (objectName? ts).map fun r => (r.1, relined f r.2) := by
  cases ts with
  | nil => rfl
  | cons p rest =>
    rw [relined_cons]
    unfold objectName?
    dsimp only [Placed.reline]
    cases p.token.nameText? with
    | none => rfl
    | some name =>
      rw [Option.map_some, Option.map_some, Option.map_some, nameParts_relined]

theorem objectName_relined (wanted : Wanted) (ts : Input) :
    objectName wanted (relined f ts) = (objectName wanted ts).reline f id := by
  unfold objectName
  rw [objectName?_relined]
  cases objectName? ts with
  | none => rw [Option.map_none, Step.reline_fail, expectedAt_relined]
  | some r => rfl

theorem stringItems_relined (values : List String) (ts : Input) :
    stringItems values (relined f ts) = (stringItems values ts).reline f id := by
  induction ts generalizing values with
  | nil => rfl
  | cons p rest ih =>
    rw [relined_cons]
    unfold stringItems
    dsimp only [Placed.reline]
    split
    · exact ih _
    · exact ih _
    · rfl
    · rfl
    · rfl

theorem stringList_relined (ts : Input) :
    stringList (relined f ts) = (stringList ts).reline f id := by
  cases ts with
  | nil => rfl
  | cons p rest =>
    obtain ⟨t, line⟩ := p
    cases t with
    | lparen => exact stringItems_relined f [] rest
    | endOfText => rfl
    | _ => rfl

theorem columnItems_relined (columns : List String) (fresh : Bool) (ts : Input) :
    columnItems columns fresh (relined f ts) = (columnItems columns fresh ts).reline f id := by
  fun_induction columnItems columns fresh ts with
  | case1 => rw [relined_nil, columnItems]; rfl
  | case2 _ _ _ _ h => rw [relined_cons, columnItems, Placed.reline_token, h]; rfl
  | case3 _ _ _ _ h ih => rw [relined_cons, columnItems, Placed.reline_token, h]; exact ih
  | case4 _ _ _ _ h ih =>
    rw [relined_cons, columnItems, Placed.reline_token, h]
    dsimp only
    rw [closeParens_relined, ih]
  | case5 _ _ _ _ h => rw [relined_cons, columnItems, Placed.reline_token, h]; rfl
  | case6 _ _ p _ name h1 h2 h3 h4 hn ih =>
    rw [relined_cons, columnItems, Placed.reline_token]
    split
    · exact (h1 ‹_›).elim
    · exact (h2 ‹_›).elim
    · exact (h3 ‹_›).elim
    · exact (h4 ‹_›).elim
    · rw [hn]
      exact ih
  | case7 _ _ p _ h1 h2 h3 h4 hn ih =>
    rw [relined_cons, columnItems, Placed.reline_token]
    split
    · exact (h1 ‹_›).elim
    · exact (h2 ‹_›).elim
    · exact (h3 ‹_›).elim
    · exact (h4 ‹_›).elim
    · rw [hn]
      exact ih

theorem columnList_relined (ts : Input) :
    columnList (relined f ts) = (columnList ts).reline f id := by
  cases ts with
  | nil => rfl
  | cons p rest =>
    obtain ⟨t, line⟩ := p
    cases t with
    | lparen => exact columnItems_relined f [] true rest
    | _ => rfl

/-! ## References and defaults -/

theorem action_relined (ts : Input) :
    action (relined f ts) = ((action ts).1, relined f (action ts).2) := by
  cases ts with
  | nil => rfl
  | cons p rest =>
    rw [relined_cons]
    unfold action
    dsimp only
    rw [Placed.reline_token, nextToken_relined, skipWord_relined, relined_tail]
    repeat' split
    all_goals rfl

/-- Nothing but `ON` begins an action. -/
theorem actions_of_not_on {d u : Option ReferentialAction} {ts : Input}
    (h : nextToken ts ≠ .keyword .on) : actions d u ts = ((d, u), ts) := by
  rw [actions]
  rintro line rest rfl
  exact h rfl

/-- Neither is `ON` without the event one. -/
theorem actions_of_no_event {d u : Option ReferentialAction} {line : Nat} {ts : Input}
    (hd : nextToken ts ≠ .keyword .delete) (hu : nextToken ts ≠ .keyword .update) :
    actions d u (⟨.keyword .on, line⟩ :: ts) = ((d, u), ts) := by
  rw [actions]
  · rintro line rest rfl
    exact hd rfl
  · rintro line rest rfl
    exact hu rfl

theorem actions_relined (d u : Option ReferentialAction) (ts : Input) :
    actions d u (relined f ts) = ((actions d u ts).1, relined f (actions d u ts).2) := by
  fun_induction actions d u ts with
  | case1 d u line line' rest ih =>
    rw [relined_cons, relined_cons]
    dsimp only [Placed.reline]
    rw [actions, action_relined]
    exact ih
  | case2 d u line line' rest ih =>
    rw [relined_cons, relined_cons]
    dsimp only [Placed.reline]
    rw [actions, action_relined]
    exact ih
  | case3 d u line ts h1 h2 =>
    rw [relined_cons]
    dsimp only [Placed.reline]
    apply actions_of_no_event
    all_goals
      rw [nextToken_relined]
      cases ts with
      | nil => exact nofun
      | cons p ts =>
        obtain ⟨t, l⟩ := p
        rintro rfl
        first | exact h1 l ts rfl | exact h2 l ts rfl
  | case4 d u ts h =>
    apply actions_of_not_on
    rw [nextToken_relined]
    cases ts with
    | nil => exact nofun
    | cons p ts =>
      obtain ⟨t, l⟩ := p
      rintro rfl
      exact h l ts rfl

theorem reference_relined (ts : Input) :
    reference (relined f ts) = (reference ts).reline f id := by
  unfold reference
  rw [objectName_relined]
  refine Step.bind_reline f fun table ts => ?_
  rw [columnList_relined]
  refine Step.bind_reline f fun columns ts => ?_
  dsimp only
  rw [actions_relined]
  rfl

theorem foreignKey_relined (ts : Input) :
    foreignKey (relined f ts) = (foreignKey ts).reline f id := by
  cases ts with
  | nil => rfl
  | cons p ts =>
    obtain ⟨t, line⟩ := p
    by_cases ht : t = .keyword .key
    · subst ht
      rw [relined_cons]
      unfold foreignKey
      dsimp only [Placed.reline]
      rw [columnList_relined]
      refine Step.bind_reline f fun columns ts => ?_
      dsimp only [id]
      split
      · rw [Step.reline_fail, expectedAt_relined]
      · cases ts with
        | nil => rfl
        | cons p ts =>
          obtain ⟨t, line⟩ := p
          by_cases ht : t = .keyword .references
          · subst ht
            change (reference (relined f ts)).bind _ = ((reference ts).bind _).reline f id
            rw [reference_relined]
            exact Step.bind_reline f fun _ _ => rfl
          · split
            · exact (ht (congrArg Placed.token (List.cons.inj ‹_›).1)).elim
            · split
              · exact (ht (congrArg Placed.token (List.cons.inj ‹_›).1)).elim
              · rw [Step.reline_fail, expectedAt_relined]
    · unfold foreignKey
      split
      · exact (ht (congrArg Placed.token (List.cons.inj ‹_›).1)).elim
      · split
        · exact (ht (congrArg Placed.token (List.cons.inj ‹_›).1)).elim
        · rw [Step.reline_fail, expectedAt_relined]

theorem expressionWords_relined (depth : Nat) (ts : Input) :
    expressionWords depth (relined f ts) =
      ((expressionWords depth ts).1, relined f (expressionWords depth ts).2) := by
  induction ts generalizing depth with
  | nil => rfl
  | cons p rest ih =>
    rw [relined_cons]
    unfold expressionWords
    dsimp only
    rw [Placed.reline_token]
    split
    · rw [ih]
    · split
      · rfl
      · rw [ih]
    · rw [ih]
    · rw [ih]
    · rw [ih]
    · rw [ih]
    · rfl
    · rfl
    · rw [ih]

theorem expression_relined (ts : Input) :
    expression (relined f ts) = ((expression ts).1, relined f (expression ts).2) := by
  unfold expression
  rw [expressionWords_relined]

theorem defaultValue_relined (ts : Input) :
    defaultValue (relined f ts) = ((defaultValue ts).1, relined f (defaultValue ts).2) := by
  cases ts with
  | nil => rfl
  | cons p rest =>
    obtain ⟨t, line⟩ := p
    cases t with
    | keyword k => cases k <;> rfl
    | lparen => exact expression_relined f rest
    | ident s =>
      cases rest with
      | nil => rfl
      | cons q rest =>
        obtain ⟨t, line⟩ := q
        cases t with
        | lparen =>
          show (s ++ (expression (relined f rest)).1, (expression (relined f rest)).2) = _
          rw [expression_relined]
          rfl
        | _ => rfl
    | _ => rfl

/-! ## Columns -/

theorem paramItems_relined (params : List String) (current : String) (ts : Input) :
    paramItems params current (relined f ts) = (paramItems params current ts).reline f id := by
  induction ts generalizing params current with
  | nil => rfl
  | cons p rest ih =>
    rw [relined_cons]
    unfold paramItems
    dsimp only [Placed.reline]
    split
    · rfl
    · exact ih _ _
    · exact ih _ _
    · exact ih _ _
    · rfl
    · exact ih _ _

theorem typeTail_relined (c : ColumnDef) (ts : Input) :
    typeTail c (relined f ts) = (typeTail c ts).reline f id := by
  fun_induction typeTail c ts with
  | case1 => rw [relined_nil, typeTail]; rfl
  | case2 c p rest word ht hw ih =>
    rw [relined_cons, typeTail, Placed.reline_token, ht]
    dsimp only
    rw [if_pos hw]
    exact ih
  | case3 c p rest word ht hw hs ih =>
    rw [ht] at hs
    rw [relined_cons, typeTail, Placed.reline_token, ht]
    dsimp only
    rw [if_neg hw, if_pos hs]
    exact ih
  | case4 c p rest word ht hw hs =>
    rw [ht] at hs
    rw [relined_cons, typeTail, Placed.reline_token, ht]
    dsimp only
    rw [if_neg hw, if_neg hs]
    rfl
  | case5 c p rest ht part hn ih =>
    rw [relined_cons, typeTail, Placed.reline_token, ht]
    dsimp only
    rw [nextToken_relined, hn, relined_tail]
    exact ih
  | case6 c p rest ht hn ih =>
    rw [relined_cons, typeTail, Placed.reline_token, ht]
    dsimp only
    rw [nextToken_relined, hn]
    exact ih
  | case7 c p rest ht hc params rest' h ih =>
    rw [relined_cons, typeTail_lparen (p := p.reline f) ht hc, paramItems_relined, h]
    exact ih
  | case8 c p rest ht hc e rest' h =>
    rw [relined_cons, typeTail_lparen (p := p.reline f) ht hc, paramItems_relined, h]
    rfl
  | case9 c p rest ht hc =>
    rw [relined_cons, typeTail, Placed.reline_token, ht]
    dsimp only
    rw [if_neg hc]
    rfl
  | case10 c p rest ht ih =>
    rw [relined_cons, typeTail, Placed.reline_token, ht]
    exact ih
  | case11 c p rest h1 h2 h3 h4 =>
    rw [relined_cons, typeTail, Placed.reline_token]
    split
    · exact (h1 _ ‹_›).elim
    · exact (h2 ‹_›).elim
    · exact (h3 ‹_›).elim
    · exact (h4 ‹_›).elim
    · rfl

theorem dataType_relined (c : ColumnDef) (ts : Input) :
    dataType c (relined f ts) = (dataType c ts).reline f id := by
  cases ts with
  | nil => rfl
  | cons p rest =>
    rw [relined_cons]
    unfold dataType
    dsimp only [Placed.reline]
    split
    · rw [stringList_relined]
      exact Step.bind_reline f fun _ _ => rfl
    · exact typeTail_relined f _ rest
    · exact typeTail_relined f _ rest
    · rfl

/-! ## Modifiers -/

theorem listedValues?_relined (column : String) (ts : Input) :
    listedValues? column (relined f ts) =
      (listedValues? column ts).map fun r => (r.1, relined f r.2) := by
  match ts with
  | [] => rfl
  | [p] =>
    obtain ⟨t, line⟩ := p
    cases t <;> rfl
  | [p, q] =>
    obtain ⟨t, line⟩ := p
    cases t <;> rfl
  | ⟨t, line⟩ :: name :: word :: list =>
    cases t with
    | lparen =>
      rw [relined_cons, relined_cons, relined_cons]
      unfold listedValues?
      dsimp only [Placed.reline]
      split
      · rw [stringList_relined]
        obtain ⟨result, rest⟩ := stringList list
        cases result with
        | error e => rfl
        | ok values =>
          cases rest with
          | nil => rfl
          | cons p rest =>
            obtain ⟨t, line⟩ := p
            cases t <;> rfl
      · rfl
    | _ => rfl

theorem check_relined (c : ColumnDef) (ts : Input) :
    check c (relined f ts) = ((check c ts).1, relined f (check c ts).2) := by
  unfold check
  rw [listedValues?_relined, skipParens_relined]
  cases listedValues? c.name ts <;> rfl

theorem modifier_relined (c : ColumnDef) (t : Token) (rest : Input) :
    modifier c t (relined f rest) = (modifier c t rest).reline f id := by
  unfold modifier
  split
  · rw [skipToken_relined]
    rfl
  · rw [nextToken_relined, relined_tail]
    split <;> rfl
  · rw [skipToken_relined]
    rfl
  · rw [defaultValue_relined]
    rfl
  · rw [reference_relined]
    exact Step.bind_reline f fun _ _ => rfl
  · rw [nextToken_relined, relined_tail]
    split <;> rfl
  · rfl
  · rw [check_relined]
    rfl
  · rw [skipName_relined]
    rfl
  · rw [nextToken_relined, relined_tail]
    split <;> rfl
  · rw [closeParens_relined]
    rfl
  · rfl

theorem modifiers_relined (c : ColumnDef) (ts : Input) :
    modifiers c (relined f ts) = (modifiers c ts).reline f id := by
  fun_induction modifiers c ts with
  | case1 => rw [relined_nil, modifiers]; rfl
  | case2 c p rest h =>
    rw [relined_cons, modifiers, Placed.reline_token, if_pos h]
    rfl
  | case3 c p rest h c' rest' hm ih =>
    rw [relined_cons, modifiers_cons (p := p.reline f) h, Placed.reline_token, modifier_relined, hm]
    exact ih
  | case4 c p rest h e rest' hm =>
    rw [relined_cons, modifiers_cons (p := p.reline f) h, Placed.reline_token, modifier_relined, hm]
    rfl

theorem column_relined (name : String) (ts : Input) :
    column name (relined f ts) = (column name ts).reline f id := by
  unfold column
  rw [dataType_relined]
  exact Step.bind_reline f fun c ts => modifiers_relined f c ts

/-! ## Tables -/

theorem isIndexItem_relined (ts : Input) : isIndexItem (relined f ts) = isIndexItem ts := by
  match ts with
  | [] => rfl
  | [⟨t, _⟩] => cases t <;> rfl
  | [⟨t, _⟩, ⟨u, _⟩] => cases t <;> cases u <;> rfl
  | ⟨t, _⟩ :: ⟨u, _⟩ :: ⟨v, _⟩ :: rest => cases t <;> cases u <;> rfl

theorem uniqueColumns_relined (ts : Input) :
    uniqueColumns (relined f ts) = (uniqueColumns ts).reline f id := by
  unfold uniqueColumns
  rw [nextToken_relined, relined_tail]
  dsimp only
  split
  · rw [skipName_relined, columnList_relined]
  · rw [skipName_relined, columnList_relined]
  · rw [skipName_relined, columnList_relined]

theorem tableItem_relined (table : TableDef) (t : Token) (rest : Input) :
    tableItem (table.reline f) t (relined f rest) =
      (tableItem table t rest).reline f (TableDef.reline f) := by
  unfold tableItem
  split
  · rw [skipName_relined]
    rfl
  · rw [skipToken_relined, columnList_relined]
    refine Step.bind_reline f fun columns ts => ?_
    rw [skipItem_relined]
    rfl
  · rw [foreignKey_relined]
    exact Step.bind_reline f fun _ _ => rfl
  · rw [uniqueColumns_relined]
    refine Step.bind_reline f fun columns ts => ?_
    rw [skipItem_relined]
    rfl
  · rw [skipParens_relined]
    rfl
  · split
    · rfl
    · rw [isIndexItem_relined]
      split
      · rw [skipItem_relined]
        rfl
      · split
        · rw [skipItem_relined]
          rfl
        · rw [column_relined]
          exact Step.bind_reline f fun _ _ => rfl

theorem tableItems_relined (table : TableDef) (ts : Input) :
    tableItems (table.reline f) (relined f ts) =
      (tableItems table ts).reline f (TableDef.reline f) := by
  fun_induction tableItems table ts with
  | case1 => rw [relined_nil, tableItems]; rfl
  | case2 table p rest h =>
    rw [relined_cons, tableItems, Placed.reline_token, if_pos h]
    rfl
  | case3 table p rest h h' ih =>
    rw [relined_cons, tableItems, Placed.reline_token, if_neg h, if_pos h']
    exact ih
  | case4 table p rest h h' h'' =>
    rw [relined_cons, tableItems, Placed.reline_token, if_neg h, if_neg h', if_pos h'']
    rfl
  | case5 table p rest h h' h'' table' rest' hi ih =>
    have hp : p.token ∉ [Token.rparen, .comma, .semicolon, .endOfText] := by simp [h, h', h'']
    rw [relined_cons, tableItems_cons (p := p.reline f) hp, Placed.reline_token, tableItem_relined, hi]
    exact ih
  | case6 table p rest h h' h'' e rest' hi =>
    have hp : p.token ∉ [Token.rparen, .comma, .semicolon, .endOfText] := by simp [h, h', h'']
    rw [relined_cons, tableItems_cons (p := p.reline f) hp, Placed.reline_token, tableItem_relined, hi]
    rfl

/-! ## Statements -/

theorem skipIfNotExists_relined (ts : Input) :
    skipIfNotExists (relined f ts) = relined f (skipIfNotExists ts) := by
  unfold skipIfNotExists
  rw [nextToken_relined, relined_tail, skipToken_relined, skipToken_relined]
  split <;> rfl

/-- The end of a statement. -/
theorem statementEnd_relined (s : Option Statement) (ts : Input) :
    Step.ok (s.map (Statement.reline f)) (skipStatement (relined f ts)) =
      (Step.ok s (skipStatement ts)).reline f (Option.map (Statement.reline f)) := by
  rw [skipStatement_relined]
  rfl

theorem createTable_relined (line : Nat) (ts : Input) :
    createTable (f line) (relined f ts) =
      (createTable line ts).reline f (Option.map (Statement.reline f)) := by
  unfold createTable
  rw [skipIfNotExists_relined, objectName?_relined]
  cases objectName? (skipIfNotExists ts) with
  | none => exact statementEnd_relined f (some (.malformedTable none line)) _
  | some r =>
    obtain ⟨name, rest⟩ := r
    have other := statementEnd_relined f (some (.malformedTable (some name) line)) rest
    cases rest with
    | nil => exact other
    | cons p rest =>
      obtain ⟨t, l⟩ := p
      cases t with
      | lparen =>
        change (tableItems (TableDef.reline f { name, line }) (relined f rest)).bind _ = _
        rw [tableItems_relined]
        exact Step.bind_reline f fun table ts =>
          statementEnd_relined f (some (.createTable table)) ts
      | _ => exact other

theorem createType_relined (ts : Input) :
    createType (relined f ts) = (createType ts).reline f (Option.map (Statement.reline f)) := by
  unfold createType
  rw [objectName_relined]
  refine Step.bind_reline f fun name ts => ?_
  have other := statementEnd_relined f none ts
  match ts with
  | [] => exact other
  | [⟨t, _⟩] =>
    cases t with
    | keyword k => cases k <;> exact other
    | _ => exact other
  | ⟨t, _⟩ :: ⟨u, _⟩ :: rest =>
    cases t with
    | keyword k =>
      cases k with
      | as =>
        cases u with
        | keyword k =>
          cases k with
          | enum =>
            change (stringList (relined f rest)).bind _ = _
            rw [stringList_relined]
            exact Step.bind_reline f fun values ts =>
              statementEnd_relined f (some (.createType name values)) ts
          | _ => exact other
        | _ => exact other
      | _ => exact other
    | _ => exact other

theorem skipIndexName_relined (ts : Input) :
    skipIndexName (relined f ts) = relined f (skipIndexName ts) := by
  unfold skipIndexName
  rw [nextToken_relined, objectName?_relined]
  split
  · rfl
  · cases objectName? ts <;> rfl

theorem skipUsing_relined (ts : Input) : skipUsing (relined f ts) = relined f (skipUsing ts) := by
  unfold skipUsing
  rw [nextToken_relined, relined_tail, relined_tail]
  split <;> rfl

theorem createIndex_relined (unique : Bool) (ts : Input) :
    createIndex unique (relined f ts) =
      (createIndex unique ts).reline f (Option.map (Statement.reline f)) := by
  unfold createIndex
  rw [skipWord_relined, skipIfNotExists_relined, skipIndexName_relined]
  generalize skipIndexName (skipIfNotExists (skipWord ts "concurrently")) = ts
  have other := statementEnd_relined f none ts
  cases ts with
  | nil => exact other
  | cons p ts =>
    obtain ⟨t, line⟩ := p
    cases t with
    | keyword k =>
      cases k with
      | on =>
        rw [relined_cons]
        dsimp only [Placed.reline]
        rw [skipToken_relined, objectName_relined]
        refine Step.bind_reline f fun table ts => ?_
        rw [skipUsing_relined, columnList_relined]
        refine Step.bind_reline f fun columns ts => ?_
        dsimp only [id]
        split
        · exact statementEnd_relined f none ts
        · exact statementEnd_relined f (some (.createIndex table columns unique)) ts
      | _ => exact other
    | _ => exact other

theorem skipTableKinds_relined (ts : Input) :
    skipTableKinds (relined f ts) = relined f (skipTableKinds ts) := by
  fun_induction skipTableKinds ts with
  | case1 => rfl
  | case2 p rest h ih => rw [relined_cons, skipTableKinds, Placed.reline_token, if_pos h, ih]
  | case3 p rest h => rw [relined_cons, skipTableKinds, Placed.reline_token, if_neg h]

theorem skipOrReplace_relined (ts : Input) :
    skipOrReplace (relined f ts) = relined f (skipOrReplace ts) := by
  unfold skipOrReplace
  rw [nextToken_relined, relined_tail, skipWord_relined]
  split <;> rfl

theorem create_relined (line : Nat) (ts : Input) :
    create (f line) (relined f ts) =
      (create line ts).reline f (Option.map (Statement.reline f)) := by
  unfold create
  rw [skipOrReplace_relined, skipTableKinds_relined]
  generalize skipTableKinds (skipOrReplace ts) = ts
  have other := statementEnd_relined f none ts
  cases ts with
  | nil => exact other
  | cons p ts =>
    obtain ⟨t, l⟩ := p
    cases t with
    | keyword k =>
      cases k with
      | table => exact createTable_relined f line ts
      | type => exact createType_relined f ts
      | index => exact createIndex_relined f false ts
      | unique =>
        cases ts with
        | nil => exact other
        | cons q ts =>
          obtain ⟨u, l⟩ := q
          cases u with
          | keyword k =>
            cases k with
            | index => exact createIndex_relined f true ts
            | _ => exact other
          | _ => exact other
      | _ => exact other
    | _ => exact other

theorem addedKey_relined (table : String) (ts : Input) :
    addedKey table (relined f ts) =
      (addedKey table ts).reline f (Option.map (Statement.reline f)) := by
  unfold addedKey
  dsimp only
  have hs : (if nextToken (relined f ts) = .keyword .constraint then
        skipName (relined f ts).tail else relined f ts) =
      relined f (if nextToken ts = .keyword .constraint then skipName ts.tail else ts) := by
    rw [nextToken_relined, relined_tail, skipName_relined]
    split <;> rfl
  rw [hs]
  generalize (if nextToken ts = .keyword .constraint then skipName ts.tail else ts) = ts
  have other := statementEnd_relined f none ts
  cases ts with
  | nil => exact other
  | cons p ts =>
    obtain ⟨t, l⟩ := p
    cases t with
    | keyword k =>
      cases k with
      | «foreign» =>
        change (foreignKey (relined f ts)).bind _ = _
        rw [foreignKey_relined]
        exact Step.bind_reline f fun key ts =>
          statementEnd_relined f (some (.alterForeignKey table key)) ts
      | _ => exact other
    | _ => exact other

theorem alter_relined (ts : Input) :
    alter (relined f ts) = (alter ts).reline f (Option.map (Statement.reline f)) := by
  have other := statementEnd_relined f none ts
  cases ts with
  | nil => exact other
  | cons p ts =>
    obtain ⟨t, l⟩ := p
    cases t with
    | keyword k =>
      cases k with
      | table =>
        rw [relined_cons]
        unfold alter
        dsimp only [Placed.reline]
        rw [skipIfNotExists_relined, skipToken_relined, objectName?_relined]
        cases objectName? (skipToken (skipIfNotExists ts) (.keyword .only)) with
        | none => exact statementEnd_relined f none _
        | some r =>
          obtain ⟨name, rest⟩ := r
          have other := statementEnd_relined f none rest
          cases rest with
          | nil => exact other
          | cons q rest =>
            obtain ⟨u, l⟩ := q
            cases u with
            | keyword k =>
              cases k with
              | add => exact addedKey_relined f name rest
              | _ => exact other
            | _ => exact other
      | _ => exact other
    | _ => exact other

theorem statement_relined (p : Placed) (rest : Input) :
    statement (p.reline f) (relined f rest) =
      (statement p rest).reline f (Option.map (Statement.reline f)) := by
  unfold statement
  rw [Placed.reline_token]
  split
  · exact create_relined f p.line rest
  · exact alter_relined f rest
  · rfl

/-! ## Scripts -/

/-- **The script of tokens on other lines.** -/
theorem Script.ofTokens_relined (ts : Input) :
    Script.ofTokens (relined f ts) = (Script.ofTokens ts).reline f := by
  fun_induction Script.ofTokens ts with
  | case1 => rw [relined_nil, Script.ofTokens]; rfl
  | case2 p rest h => rw [relined_cons, Script.ofTokens, Placed.reline_token, if_pos h]; rfl
  | case3 p rest h rest' hs ih =>
    rw [relined_cons, Script.ofTokens_cons (p := p.reline f) h, statement_relined, hs]
    exact ih
  | case4 p rest h s rest' hs script ih =>
    rw [relined_cons, Script.ofTokens_cons (p := p.reline f) h, statement_relined, hs]
    unfold Script.after
    dsimp only [Step.reline, Option.map_some]
    rw [ih]
    rfl
  | case5 p rest h e rest' hs script ih =>
    rw [relined_cons, Script.ofTokens_cons (p := p.reline f) h, statement_relined, hs]
    unfold Script.after
    dsimp only [Step.reline]
    rw [skipStatement_relined, ih]
    rfl

end

/-- Tokens that all stand on line 0. -/
def row (ts : List Token) : Input :=
  ts.map (⟨·, 0⟩)

theorem row_nil : row [] = [] :=
  rfl

theorem row_cons (t : Token) (ts : List Token) : row (t :: ts) = ⟨t, 0⟩ :: row ts :=
  rfl

theorem row_append (ts us : List Token) : row (ts ++ us) = row ts ++ row us :=
  List.map_append

theorem row_token (ts : List Token) : (row ts).map (·.token) = ts := by
  unfold row
  rw [List.map_map]
  exact List.map_id ts

theorem relined_zero (ts : Input) : relined (fun _ => 0) ts = row (ts.map (·.token)) := by
  unfold relined row
  rw [List.map_map]
  rfl

/-- **Statements of a text**, but for their lines, are those of its tokens. -/
theorem Script.ofText_reline (text : String) :
    (Script.ofText text).reline (fun _ => 0) =
      .ofTokens (row
        (tokensOf (Dialect.detect text).escapesBackslash text.toList ++ [.endOfText])) := by
  unfold Script.ofText
  rw [← Script.ofTokens_relined, relined_zero, tokens_map_token]

end DdlGraph.Sql
