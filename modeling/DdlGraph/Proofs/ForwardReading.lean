import DdlGraph.Proofs.StatementEnds

/-!
# Reading goes forward

Where a reader stands is a place in the list of tokens, and what it has left to read are the tokens
from there on. Every production comes to a place that is not before the one it is called at
(`Production.rest_suffix`), even a check, which tries a list of values and goes back where there is
none. The loops that read statements, items, modifiers and columns go round by round, and a round
after which another one follows takes a token (`Loop.Forward`). So a loop has at most one round
more than there are tokens left (`Loop.Forward.runs`).

* `Production.comesTo`: where productions come to;
* `columnLoop_forward`, `modifierLoop_forward`, `itemLoop_forward`, `statementLoop_forward`: the
  four loops;
* `readsForward`: productions and loops together.
-/

namespace DdlGraph.Sql

/-! ## Productions -/

/-- **Productions**, and what they are given besides the tokens. -/
inductive Production where
  | token (t : Token)
  | word (w : String)
  | name
  | objectName (wanted : Wanted)
  | ifNotExists
  | orReplace
  | tableKinds
  | indexName
  | accessMethod
  | parens
  | closing (depth : Nat)
  | item
  | statementEnd
  | strings
  | columns
  | action
  | actions
  | reference
  | foreignKey
  | expression
  | defaultValue
  | typeParams
  | typeTail (c : ColumnDef)
  | dataType (c : ColumnDef)
  /-- The values that a check lists. If it lists none the reader goes back to where it began. -/
  | listedValues (title : String)
  | check (c : ColumnDef)
  | modifier (c : ColumnDef) (t : Token)
  | modifiers (c : ColumnDef)
  | column (title : String)
  | uniqueColumns
  | tableItem (table : TableDef) (t : Token)
  | tableItems (table : TableDef)
  | createTable (line : Nat)
  | createType
  | createIndex (unique : Bool)
  | create (line : Nat)
  | addedKey (table : String)
  | alter
  | statement (first : Placed)

/-- The tokens that a production leaves, whether it succeeds or fails. -/
def Production.rest : Production → Input → Input
  | .token t, ts => skipToken ts t
  | .word w, ts => skipWord ts w
  | .name, ts => skipName ts
  | .objectName wanted, ts => (Sql.objectName wanted ts).rest
  | .ifNotExists, ts => skipIfNotExists ts
  | .orReplace, ts => skipOrReplace ts
  | .tableKinds, ts => skipTableKinds ts
  | .indexName, ts => skipIndexName ts
  | .accessMethod, ts => skipUsing ts
  | .parens, ts => skipParens ts
  | .closing depth, ts => closeParens depth ts
  | .item, ts => skipItem ts
  | .statementEnd, ts => skipStatement ts
  | .strings, ts => (stringList ts).rest
  | .columns, ts => (columnList ts).rest
  | .action, ts => (Sql.action ts).2
  | .actions, ts => (Sql.actions none none ts).2
  | .reference, ts => (Sql.reference ts).rest
  | .foreignKey, ts => (Sql.foreignKey ts).rest
  | .expression, ts => (Sql.expression ts).2
  | .defaultValue, ts => (Sql.defaultValue ts).2
  | .typeParams, ts => (paramItems [] "" ts).rest
  | .typeTail c, ts => (Sql.typeTail c ts).rest
  | .dataType c, ts => (Sql.dataType c ts).rest
  | .listedValues title, ts => ((listedValues? title ts).map (·.2)).getD ts
  | .check c, ts => (Sql.check c ts).2
  | .modifier c t, ts => (Sql.modifier c t ts).rest
  | .modifiers c, ts => (Sql.modifiers c ts).rest
  | .column title, ts => (Sql.column title ts).rest
  | .uniqueColumns, ts => (Sql.uniqueColumns ts).rest
  | .tableItem table t, ts => (Sql.tableItem table t ts).rest
  | .tableItems table, ts => (Sql.tableItems table ts).rest
  | .createTable line, ts => (Sql.createTable line ts).rest
  | .createType, ts => (Sql.createType ts).rest
  | .createIndex unique, ts => (Sql.createIndex unique ts).rest
  | .create line, ts => (Sql.create line ts).rest
  | .addedKey table, ts => (Sql.addedKey table ts).rest
  | .alter, ts => (Sql.alter ts).rest
  | .statement first, ts => (Sql.statement first ts).rest

/-- **No production reads a token twice**, or one that is not there. -/
theorem Production.rest_suffix (production : Production) (ts : Input) :
    production.rest ts <:+ ts := by
  cases production with
  | token t => exact skipToken_suffix ts t
  | word w => exact skipWord_suffix ts w
  | name => exact skipName_suffix ts
  | objectName wanted => exact objectName_suffix wanted ts
  | ifNotExists => exact skipIfNotExists_suffix ts
  | orReplace => exact skipOrReplace_suffix ts
  | tableKinds => exact skipTableKinds_suffix ts
  | indexName => exact skipIndexName_suffix ts
  | accessMethod => exact skipUsing_suffix ts
  | parens => exact skipParens_suffix ts
  | closing depth => exact closeParens_suffix depth ts
  | item => exact skipItem_suffix ts
  | statementEnd => exact skipStatement_suffix ts
  | strings => exact stringList_suffix ts
  | columns => exact columnList_suffix ts
  | action => exact action_suffix ts
  | actions => exact actions_suffix none none ts
  | reference => exact reference_suffix ts
  | foreignKey => exact foreignKey_suffix ts
  | expression => exact expressionWords_suffix 0 ts
  | defaultValue => exact defaultValue_suffix ts
  | typeParams => exact paramItems_suffix [] "" ts
  | typeTail c => exact typeTail_suffix c ts
  | dataType c => exact dataType_suffix c ts
  | listedValues title =>
    cases h : listedValues? title ts with
    | none => simp [rest, h]
    | some r => simpa [rest, h] using listedValues?_suffix h
  | check c => exact check_suffix c ts
  | modifier c t => exact modifier_suffix c t ts
  | modifiers c => exact modifiers_suffix c ts
  | column title => exact column_suffix title ts
  | uniqueColumns => exact uniqueColumns_suffix ts
  | tableItem table t => exact tableItem_suffix table t ts
  | tableItems table => exact tableItems_suffix table ts
  | createTable line => exact createTable_suffix line ts
  | createType => exact createType_suffix ts
  | createIndex unique => exact createIndex_suffix unique ts
  | create line => exact create_suffix line ts
  | addedKey table => exact addedKey_suffix table ts
  | alter => exact alter_suffix ts
  | statement first => exact statement_suffix first ts

/-! ## Places -/

section
variable {all rest : Input} {n : Nat}

/-- What is left of the tokens from `n` on are the tokens from a place on that is not before. -/
theorem exists_place (hn : n ≤ all.length) (h : rest <:+ all.drop n) :
    ∃ m, n ≤ m ∧ m ≤ all.length ∧ rest = all.drop m := by
  obtain ⟨front, hfront⟩ := h
  have hlength := congrArg List.length hfront
  rw [List.length_append, List.length_drop] at hlength
  refine ⟨n + front.length, by omega, by omega, ?_⟩
  rw [← List.drop_drop, ← hfront, List.drop_left]

/-- Behind a token the place is a later one. -/
theorem exists_later_place (hne : all.drop n ≠ []) (h : rest <:+ (all.drop n).tail) :
    ∃ m, n < m ∧ m ≤ all.length ∧ rest = all.drop m := by
  rw [List.tail_drop] at h
  have hn : n < all.length := by
    rw [← Nat.not_le]
    exact fun hle => hne (List.drop_eq_nil_of_le hle)
  exact exists_place hn h

/-- **Productions come to a place** that is not before the one they are called at, nor behind the
last token. -/
theorem Production.comesTo (production : Production) (hn : n ≤ all.length) :
    ∃ m, n ≤ m ∧ m ≤ all.length ∧ production.rest (all.drop n) = all.drop m :=
  exists_place hn (production.rest_suffix _)

end

/-! ## Loops -/

/-- What a round of a loop comes to: the loop is done, or there is another round. -/
inductive Round (σ ω : Type) where
  | done (outcome : ω) (rest : Input)
  | again (state : σ) (rest : Input)

/-- A loop: what is done in a round, and what the whole of it is meant to give. -/
structure Loop (σ ω : Type) where
  round : σ → Input → Round σ ω
  Gives : σ → Input → ω → Input → Prop

namespace Loop

variable {σ ω : Type}

/-- **A run of a loop** in that many rounds. A loop that goes on for ever has none. -/
inductive Runs (l : Loop σ ω) : Nat → σ → Input → ω → Input → Prop
  | done {state : σ} {ts : Input} {outcome : ω} {rest : Input}
    (h : l.round state ts = .done outcome rest) : Runs l 1 state ts outcome rest
  | again {state next : σ} {ts left : Input} {n : Nat} {outcome : ω} {rest : Input}
    (h : l.round state ts = .again next left) (run : Runs l n next left outcome rest) :
    Runs l (n + 1) state ts outcome rest

/-- **A loop that goes forward**: a round leaves a part of the tokens, and takes one if another
round follows, while the last one may leave the token that ends the loop to others; and the rounds
together give what the loop is meant to. -/
structure Forward (l : Loop σ ω) : Prop where
  leaves : ∀ state ts outcome rest, l.round state ts = .done outcome rest →
    rest <:+ ts ∧ l.Gives state ts outcome rest
  takes : ∀ state ts next left, l.round state ts = .again next left →
    ts ≠ [] ∧ left <:+ ts.tail ∧
      ∀ outcome rest, l.Gives next left outcome rest → l.Gives state ts outcome rest

/-- **A loop that goes forward ends**, with at most one round more than there are tokens. -/
theorem Forward.runs {l : Loop σ ω} (hl : l.Forward) (state : σ) (ts : Input) :
    ∃ n outcome rest, n ≤ ts.length + 1 ∧ l.Runs n state ts outcome rest ∧ rest <:+ ts ∧
      l.Gives state ts outcome rest := by
  -- By induction on how many tokens are left: a round that another one follows leaves fewer.
  generalize hlen : ts.length = len
  induction len using Nat.strongRecOn generalizing state ts with
  | ind len ih =>
    cases hround : l.round state ts with
    | done outcome rest =>
      obtain ⟨hrest, hgives⟩ := hl.leaves state ts outcome rest hround
      exact ⟨1, outcome, rest, by omega, .done hround, hrest, hgives⟩
    | again next left =>
      obtain ⟨hne, hleft, hgives⟩ := hl.takes state ts next left hround
      have hshort : left.length < len := by
        have hpos := List.length_pos_iff.2 hne
        have hle := hleft.length_le
        rw [List.length_tail] at hle
        omega
      obtain ⟨n, outcome, rest, hn, hruns, hrest, hnext⟩ := ih left.length hshort next left rfl
      exact ⟨n + 1, outcome, rest, by omega, .again hround hruns,
        hrest.trans (hleft.trans (List.tail_suffix ts)), hgives outcome rest hnext⟩

/-- **A loop goes through the tokens**: wherever it begins, in whatever state, a round after which
another one follows comes to a later place, and the loop ends, with what it is meant to give, at a
place that is not before. -/
structure GoesThrough (l : Loop σ ω) (all : Input) : Prop where
  forward : ∀ n state next left, n ≤ all.length → l.round state (all.drop n) = .again next left →
    ∃ m, n < m ∧ m ≤ all.length ∧ left = all.drop m
  ends : ∀ n state, n ≤ all.length → ∃ k m outcome, k ≤ all.length - n + 1 ∧ n ≤ m ∧
    m ≤ all.length ∧ l.Runs k state (all.drop n) outcome (all.drop m) ∧
    l.Gives state (all.drop n) outcome (all.drop m)

theorem Forward.goesThrough {l : Loop σ ω} (hl : l.Forward) (all : Input) : l.GoesThrough all where
  forward n state next left _ hround := by
    obtain ⟨hne, hleft, -⟩ := hl.takes state (all.drop n) next left hround
    exact exists_later_place hne hleft
  ends n state hn := by
    obtain ⟨k, outcome, rest, hk, hruns, hrest, hgives⟩ := hl.runs state (all.drop n)
    obtain ⟨m, hnm, hm, rfl⟩ := exists_place hn hrest
    rw [List.length_drop] at hk
    exact ⟨k, m, outcome, hk, hnm, hm, hruns, hgives⟩

end Loop

/-! ## The loops -/

section
variable {α σ : Type}

/-- A round that reads with a production: an error ends the loop. -/
def Round.ofStep (s : Step α) : Round α (Except SyntaxError α) :=
  match s.result with
  | .ok a => .again a s.rest
  | .error e => .done (.error e) s.rest

/-- What comes of a loop that has come so far, if `f` does the rest of it. -/
def Round.goOn (f : σ → Input → Step α) : Round σ (Except SyntaxError α) → Step α
  | .done outcome rest => ⟨outcome, rest⟩
  | .again state rest => f state rest

theorem Round.goOn_ofStep (f : α → Input → Step α) (s : Step α) :
    (Round.ofStep s).goOn f = s.bind f := by
  unfold ofStep Step.bind
  cases s.result <;> rfl

theorem Round.of_ofStep {s : Step α} {next : α} {left : Input}
    (h : Round.ofStep s = .again next left) : left = s.rest := by
  unfold ofStep at h
  split at h
  · exact (Round.again.inj h).2.symm
  · cases h

/-- The loop that `f` goes through by rounds. -/
def Loop.ofRounds (round : σ → Input → Round σ (Except SyntaxError α))
    (f : σ → Input → Step α) : Loop σ (Except SyntaxError α) where
  round
  Gives state ts outcome rest := f state ts = ⟨outcome, rest⟩

/-- It goes forward if `f` is one round and then the others, and rounds take tokens. -/
theorem Loop.forward_ofRounds {round : σ → Input → Round σ (Except SyntaxError α)}
    {f : σ → Input → Step α} (hf : ∀ state ts, f state ts = (round state ts).goOn f)
    (hsuffix : ∀ state ts, (f state ts).rest <:+ ts)
    (htakes : ∀ state ts next left, round state ts = .again next left →
      ts ≠ [] ∧ left <:+ ts.tail) : (Loop.ofRounds round f).Forward where
  leaves state ts outcome rest hround := by
    have heq : f state ts = ⟨outcome, rest⟩ := (hf state ts).trans (congrArg (Round.goOn f) hround)
    have hrest := hsuffix state ts
    rw [heq] at hrest
    exact ⟨hrest, heq⟩
  takes state ts next left hround := by
    obtain ⟨hne, hleft⟩ := htakes state ts next left hround
    refine ⟨hne, hleft, fun outcome rest hnext => ?_⟩
    exact ((hf state ts).trans (congrArg (Round.goOn f) hround)).trans hnext

end

/-- A round of the loop over a list of columns: a column, a mark, or something in parentheses. -/
def columnRound (state : List String × Bool) :
    Input → Round (List String × Bool) (Except SyntaxError (List String))
  | [] => .done (.error .endOfText) []
  | p :: rest => match p.token with
    | .rparen => .done (.ok state.1) rest
    | .comma => .again (state.1, true) rest
    | .lparen => .again (state.1, false) (closeParens 0 rest)
    | .endOfText => .done (.error .endOfText) (p :: rest)
    | t => match t.nameText? with
      | some name => .again (if state.2 then state.1 ++ [name] else state.1, false) rest
      | none => .again (state.1, false) rest

/-- A round of the loop over what stands behind the type of a column: one modifier. -/
def modifierRound (c : ColumnDef) : Input → Round ColumnDef (Except SyntaxError ColumnDef)
  | [] => .done (.ok c) []
  | p :: rest =>
    if p.token ∈ [.comma, .rparen, .semicolon, .endOfText] then .done (.ok c) (p :: rest)
    else .ofStep (modifier c p.token rest)

/-- A round of the loop over the body of a table: an item, or the comma behind one. -/
def itemRound (table : TableDef) : Input → Round TableDef (Except SyntaxError TableDef)
  | [] => .done (.ok table) []
  | p :: rest =>
    if p.token = .rparen then .done (.ok table) rest
    else if p.token = .comma then .again table rest
    else if p.token = .semicolon ∨ p.token = .endOfText then .done (.ok table) (p :: rest)
    else .ofStep (tableItem table p.token rest)

/-- A round of the loop over a text: a statement, or its error and the way to the next one. -/
def statementRound (read : Script) : Input → Round Script Script
  | [] => .done read []
  | p :: rest =>
    if p.token = .endOfText then .done read (p :: rest)
    else match (statement p rest).result with
      | .ok found =>
        .again { read with statements := read.statements ++ found.toList } (statement p rest).rest
      | .error e =>
        .again { read with errors := read.errors ++ [e] } (skipStatement (statement p rest).rest)

def columnLoop : Loop (List String × Bool) (Except SyntaxError (List String)) :=
  .ofRounds columnRound fun state => columnItems state.1 state.2

def modifierLoop : Loop ColumnDef (Except SyntaxError ColumnDef) :=
  .ofRounds modifierRound modifiers

def itemLoop : Loop TableDef (Except SyntaxError TableDef) :=
  .ofRounds itemRound tableItems

def statementLoop : Loop Script Script where
  round := statementRound
  Gives read ts outcome _ := outcome = read.append (.ofTokens ts)

theorem columnLoop_forward : columnLoop.Forward := by
  refine Loop.forward_ofRounds (fun state ts => ?_)
    (fun state => columnItems_suffix state.1 state.2) fun state ts next left h => ?_
  · cases ts with
    | nil =>
      rw [columnItems]
      rfl
    | cons p rest =>
      rw [columnItems.eq_def, columnRound]
      dsimp only
      -- Token by token, since both sides look at it; a name is then looked at once more.
      generalize p.token = t
      cases t <;> try rfl
      all_goals
        dsimp only
        generalize Token.nameText? _ = name
        cases name <;> rfl
  · cases ts with
    | nil => cases h
    | cons p rest =>
      refine ⟨List.cons_ne_nil _ _, ?_⟩
      rw [columnRound] at h
      split at h
      · cases h
      · exact (Round.again.inj h).2 ▸ List.suffix_refl rest
      · exact (Round.again.inj h).2 ▸ closeParens_suffix 0 rest
      · cases h
      · split at h
        all_goals exact (Round.again.inj h).2 ▸ List.suffix_refl rest

theorem modifierLoop_forward : modifierLoop.Forward := by
  refine Loop.forward_ofRounds (fun c ts => ?_) modifiers_suffix fun c ts next left h => ?_
  · cases ts with
    | nil =>
      rw [modifiers]
      rfl
    | cons p rest =>
      rw [modifierRound]
      by_cases hp : p.token ∈ [Token.comma, .rparen, .semicolon, .endOfText]
      · rw [modifiers, if_pos hp, if_pos hp]
        rfl
      · rw [modifiers_cons hp, if_neg hp, Round.goOn_ofStep]
  · cases ts with
    | nil => cases h
    | cons p rest =>
      refine ⟨List.cons_ne_nil _ _, ?_⟩
      rw [modifierRound] at h
      split at h
      · cases h
      · exact Round.of_ofStep h ▸ modifier_suffix c p.token rest

theorem itemLoop_forward : itemLoop.Forward := by
  refine Loop.forward_ofRounds (fun table ts => ?_) tableItems_suffix fun table ts next left h => ?_
  · cases ts with
    | nil =>
      rw [tableItems]
      rfl
    | cons p rest =>
      rw [itemRound]
      by_cases hparen : p.token = .rparen
      · rw [tableItems, if_pos hparen, if_pos hparen]
        rfl
      by_cases hcomma : p.token = .comma
      · rw [tableItems, if_neg hparen, if_neg hparen, if_pos hcomma, if_pos hcomma]
        rfl
      by_cases hend : p.token = .semicolon ∨ p.token = .endOfText
      · rw [tableItems, if_neg hparen, if_neg hparen, if_neg hcomma, if_neg hcomma, if_pos hend,
          if_pos hend]
        rfl
      · have hp : p.token ∉ [Token.rparen, .comma, .semicolon, .endOfText] := by
          obtain ⟨hsemicolon, hfin⟩ := not_or.1 hend
          simp [hparen, hcomma, hsemicolon, hfin]
        rw [tableItems_cons hp, if_neg hparen, if_neg hcomma, if_neg hend, Round.goOn_ofStep]
  · cases ts with
    | nil => cases h
    | cons p rest =>
      refine ⟨List.cons_ne_nil _ _, ?_⟩
      rw [itemRound] at h
      split at h
      · cases h
      split at h
      · exact (Round.again.inj h).2 ▸ List.suffix_refl rest
      split at h
      · cases h
      · exact Round.of_ofStep h ▸ tableItem_suffix table p.token rest

theorem statementLoop_forward : statementLoop.Forward where
  leaves read ts outcome rest h := by
    have hdone : Script.ofTokens ts = {} → read = outcome ∧ ts = rest →
        rest <:+ ts ∧ statementLoop.Gives read ts outcome rest := by
      rintro hts ⟨rfl, rfl⟩
      refine ⟨List.suffix_refl ts, ?_⟩
      simp [statementLoop, hts, Script.append]
    cases ts with
    | nil =>
      exact hdone (by rw [Script.ofTokens]) (by simpa [statementLoop, statementRound] using h)
    | cons p tail =>
      simp only [statementLoop, statementRound] at h
      split at h
      · rename_i hp
        exact hdone (by rw [Script.ofTokens, if_pos hp]) (by simpa using h)
      · split at h <;> cases h
  takes read ts next left h := by
    cases ts with
    | nil => cases h
    | cons p tail =>
      have hsuffix := statement_suffix p tail
      simp only [statementLoop, statementRound] at h
      split at h
      · cases h
      · rename_i hp
        refine ⟨List.cons_ne_nil _ _, ?_⟩
        split at h
        · rename_i found hfound
          obtain ⟨rfl, rfl⟩ := Round.again.inj h
          refine ⟨hsuffix, fun outcome rest houtcome => ?_⟩
          have hscript := Script.ofTokens_cons hp tail
          rw [Script.after, hfound] at hscript
          simp only [statementLoop] at houtcome ⊢
          rw [houtcome, hscript]
          cases found <;> simp [Script.append]
        · rename_i e he
          obtain ⟨rfl, rfl⟩ := Round.again.inj h
          refine ⟨(skipStatement_suffix _).trans hsuffix, fun outcome rest houtcome => ?_⟩
          have hscript := Script.ofTokens_cons hp tail
          rw [Script.after, he] at hscript
          simp only [statementLoop] at houtcome ⊢
          rw [houtcome, hscript]
          simp [Script.append]

/-- **Reading goes forward** in these tokens: productions do not come to an earlier place, and the
loops go through the tokens. -/
structure ReadsForward (all : Input) : Prop where
  production : ∀ (production : Production) (n : Nat), n ≤ all.length →
    ∃ m, n ≤ m ∧ m ≤ all.length ∧ production.rest (all.drop n) = all.drop m
  statements : statementLoop.GoesThrough all
  items : itemLoop.GoesThrough all
  modifiers : modifierLoop.GoesThrough all
  columns : columnLoop.GoesThrough all

theorem readsForward (all : Input) : ReadsForward all where
  production production _ := production.comesTo
  statements := statementLoop_forward.goesThrough all
  items := itemLoop_forward.goesThrough all
  modifiers := modifierLoop_forward.goesThrough all
  columns := columnLoop_forward.goesThrough all

end DdlGraph.Sql
