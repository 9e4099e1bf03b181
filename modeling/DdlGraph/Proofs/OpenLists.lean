import DdlGraph.Proofs.SemicolonStops

/-!
# Lists that are left open

A production comes to an end before the semicolon of its statement, right or wrong, and nothing
behind the semicolon decides how. There is one exception. A list of columns or of the parameters of
a type ends with its closing parenthesis only: where it is still open it runs through the semicolon,
to the first closing parenthesis of what follows or to the end of the text.

* `Settles.bind`: two productions in a row stay before the semicolon, or one of them runs out;
* `columnItems_settles`, `paramItems_settles`: open lists run out;
* `column_settles`, `tableItems_settles`: nothing else does.
-/

namespace DdlGraph.Sql

/-! ## Productions -/

section
variable {α β : Type} {n : Nat}

/-- **The production stays before the semicolon**: it comes out the same whatever follows, and the
text does not end on it. -/
def Stays (n : Nat) (f : Input → Step α) (ts : Input) : Prop :=
  ∃ r us, us <:+ ts ∧ r ≠ .error .endOfText ∧
    ∀ more, f (ts ++ semicolonAt n :: more) = ⟨r, us ++ semicolonAt n :: more⟩

/-- A list is opened, and none is closed. -/
def OpensOnly (more : Input) : Prop :=
  nextToken more = .lparen ∧ ∀ p ∈ more, p.token ≠ .rparen

instance (more : Input) : Decidable (OpensOnly more) :=
  inferInstanceAs (Decidable (_ ∧ _))

/-- The text ended where something was still to come. -/
def EndedEarly (s : Step α) : Prop :=
  s.result = .error .endOfText ∧ nextToken s.rest = .endOfText

/-- **The production runs through the semicolon**: where nothing behind it closes a list, it comes to
the end of the text. -/
def RunsOut (n : Nat) (f : Input → Step α) (ts : Input) : Prop :=
  ∀ more, OpensOnly more → EndedEarly (f (ts ++ semicolonAt n :: more))

/-- **The production stays before the semicolon or runs out.** -/
def Settles (n : Nat) (f : Input → Step α) (ts : Input) : Prop :=
  Stays n f ts ∨ RunsOut n f ts

section
variable {f g : Input → Step α} {ts us : Input}

theorem settles_ok {a : α} (h : us <:+ ts)
    (hf : ∀ more, f (ts ++ semicolonAt n :: more) = .ok a (us ++ semicolonAt n :: more)) :
    Settles n f ts :=
  .inl ⟨.ok a, us, h, nofun, hf⟩

theorem Settles.of_eq (hg : Settles n g us) (h : us <:+ ts)
    (hf : ∀ more, f (ts ++ semicolonAt n :: more) = g (us ++ semicolonAt n :: more)) :
    Settles n f ts := by
  rcases hg with ⟨r, vs, hvs, hr, hg⟩ | hg
  · exact .inl ⟨r, vs, hvs.trans h, hr, fun more => (hf more).trans (hg more)⟩
  · refine .inr fun more hmore => ?_
    rw [hf]
    exact hg more hmore

theorem RunsOut.bind (hf : RunsOut n f ts) (k : α → Input → Step β) :
    RunsOut n (fun ts => (f ts).bind k) ts := by
  intro more hmore
  obtain ⟨hresult, hrest⟩ := hf more hmore
  have hbind : (f (ts ++ semicolonAt n :: more)).bind k =
      ⟨.error .endOfText, (f (ts ++ semicolonAt n :: more)).rest⟩ := by
    unfold Step.bind
    rw [hresult]
  exact ⟨congrArg Step.result hbind, (congrArg (nextToken ∘ Step.rest) hbind).trans hrest⟩

/-- **Two productions in a row.** -/
theorem Settles.bind {k : α → Input → Step β} (hf : Settles n f ts)
    (hk : ∀ a us, us <:+ ts → Settles n (k a) us) : Settles n (fun ts => (f ts).bind k) ts := by
  rcases hf with ⟨r, us, hus, hr, hf⟩ | hf
  · cases r with
    | ok a =>
      apply (hk a us hus).of_eq hus
      intro more
      show (f (ts ++ semicolonAt n :: more)).bind k = _
      rw [hf]
      rfl
    | error e =>
      refine .inl ⟨.error e, us, hus, fun h => hr (by cases h; rfl), fun more => ?_⟩
      show (f (ts ++ semicolonAt n :: more)).bind k = _
      rw [hf]
      rfl
  · exact .inr (hf.bind k)

theorem settles_fail {e : SyntaxError} (he : e ≠ .endOfText)
    (hf : ∀ more, f (ts ++ semicolonAt n :: more) = .fail e (ts ++ semicolonAt n :: more)) :
    Settles n f ts :=
  .inl ⟨.error e, ts, List.suffix_refl _, fun h => he (by cases h; rfl), hf⟩

/-- What is missing before the semicolon is missed at the semicolon. -/
theorem settles_expectedAt (wanted : Wanted)
    (hf : ∀ more, f (ts ++ semicolonAt n :: more) =
      .fail (expectedAt (ts ++ semicolonAt n :: more) wanted) (ts ++ semicolonAt n :: more)) :
    Settles n f ts := by
  cases ts with
  | nil => exact settles_fail (e := .expected n wanted .semicolon) (by simp) hf
  | cons p rest =>
    by_cases hp : p.token = .endOfText
    · refine .inr fun more _ => ?_
      rw [hf]
      simp [EndedEarly, Step.fail, expectedAt, nextToken, hp]
    · apply settles_fail (e := .expected p.line wanted p.token) (by simp)
      intro more
      rw [hf]
      simp [expectedAt, hp]

/-- The text ends before the semicolon. -/
theorem settles_endOfText
    (hf : ∀ more, EndedEarly (f (ts ++ semicolonAt n :: more))) : Settles n f ts :=
  .inr fun more _ => hf more

end

theorem objectName_settles (wanted : Wanted) (ts : Input) :
    Settles n (objectName wanted) ts := by
  cases h : objectName? ts with
  | none =>
    apply settles_expectedAt wanted
    intro more
    rw [objectName, objectName?_stops, h]
    rfl
  | some r =>
    apply settles_ok ((objectName?_suffix h).trans (List.tail_suffix _))
    intro more
    rw [objectName, objectName?_stops, h]
    rfl

/-! ## Lists -/

theorem stringItems_settles (values : List String) (ts : Input) :
    Settles n (stringItems values) ts := by
  induction ts generalizing values with
  | nil => exact settles_fail (e := .unexpected n .semicolon) nofun fun _ => rfl
  | cons p rest ih =>
    have hrest : rest <:+ p :: rest := List.suffix_cons _ _
    obtain ⟨t, line⟩ := p
    cases t with
    | str s => exact (ih (values ++ [s])).of_eq hrest fun _ => rfl
    | comma => exact (ih values).of_eq hrest fun _ => rfl
    | rparen => exact settles_ok hrest fun _ => rfl
    | endOfText => exact settles_endOfText fun _ => ⟨rfl, rfl⟩
    | _ => exact settles_fail (e := .unexpected line _) nofun fun _ => rfl

theorem stringList_settles (ts : Input) : Settles n stringList ts := by
  cases ts with
  | nil => exact settles_expectedAt _ fun _ => rfl
  | cons p rest =>
    obtain ⟨t, line⟩ := p
    cases t with
    | lparen => exact (stringItems_settles [] rest).of_eq (List.suffix_cons _ _) fun _ => rfl
    | _ => exact settles_expectedAt _ fun _ => rfl

/-- Columns without a closing parenthesis go on to the end of the text. -/
theorem columnItems_endedEarly (columns : List String) (fresh : Bool) {ts : Input}
    (h : ∀ p ∈ ts, p.token ≠ .rparen) : EndedEarly (columnItems columns fresh ts) := by
  fun_induction columnItems columns fresh ts with
  | case1 => exact ⟨rfl, rfl⟩
  | case2 _ _ p _ hp => exact absurd hp (h p List.mem_cons_self)
  | case3 _ _ _ _ _ ih | case6 _ _ _ _ _ _ _ _ _ _ ih | case7 _ _ _ _ _ _ _ _ _ ih =>
    exact ih fun q hq => h q (List.mem_cons_of_mem _ hq)
  | case4 _ _ _ rest _ ih =>
    exact ih fun q hq => h q (List.mem_cons_of_mem _ ((closeParens_suffix 0 rest).subset hq))
  | case5 _ _ p _ hp => exact ⟨rfl, hp⟩

/-- **A list of columns** that is still open runs through the semicolon. -/
theorem columnItems_settles (columns : List String) (fresh : Bool) (ts : Input) :
    Settles n (columnItems columns fresh) ts := by
  fun_induction columnItems columns fresh ts with
  | case1 columns fresh =>
    refine .inr fun more hmore => columnItems_endedEarly columns fresh fun p hp => ?_
    rcases List.mem_cons.1 hp with rfl | hp
    · intro h
      cases h
    · exact hmore.2 p hp
  | case2 _ _ p rest hp =>
    apply settles_ok (List.suffix_cons _ _)
    intro more
    rw [List.cons_append, columnItems, hp]
  | case3 _ _ p rest hp ih =>
    apply ih.of_eq (List.suffix_cons _ _)
    intro more
    rw [List.cons_append, columnItems, hp]
  | case4 _ _ p rest hp ih =>
    apply ih.of_eq ((closeParens_suffix 0 rest).trans (List.suffix_cons _ _))
    intro more
    rw [List.cons_append, columnItems, hp]
    dsimp only
    rw [closeParens_stops]
  | case5 _ _ p rest hp =>
    apply settles_endOfText
    intro more
    rw [List.cons_append, columnItems, hp]
    exact ⟨rfl, hp⟩
  | case6 _ _ p rest name h1 h2 h3 h4 hn ih | case7 _ _ p rest h1 h2 h3 h4 hn ih =>
    apply ih.of_eq (List.suffix_cons _ _)
    intro more
    rw [List.cons_append, columnItems]
    split
    · exact (h1 ‹_›).elim
    · exact (h2 ‹_›).elim
    · exact (h3 ‹_›).elim
    · exact (h4 ‹_›).elim
    · rw [hn]
      try rfl

theorem columnList_settles (ts : Input) : Settles n columnList ts := by
  cases ts with
  | nil => exact settles_ok (List.suffix_refl _) fun _ => rfl
  | cons p rest =>
    obtain ⟨t, line⟩ := p
    cases t with
    | lparen => exact (columnItems_settles [] true rest).of_eq (List.suffix_cons _ _) fun _ => rfl
    | _ => exact settles_ok (List.suffix_refl _) fun _ => rfl

/-! ## References -/

theorem reference_settles (ts : Input) : Settles n reference ts := by
  apply (objectName_settles .referencedTable ts).bind
  intro table ts _
  apply (columnList_settles ts).bind
  intro columns ts _
  refine settles_ok (a := ⟨table, if columns.isEmpty then ["id"] else columns,
    (actions none none ts).1.1, (actions none none ts).1.2⟩) (actions_suffix none none ts) ?_
  intro more
  dsimp only
  rw [actions_stops]

/-- What a foreign key needs behind its columns. -/
def keyBehind (columns : List String) (ts : Input) : Step KeyDef :=
  if columns.isEmpty then .fail (expectedAt ts .keyColumns) ts
  else match ts with
    | ⟨.keyword .references, _⟩ :: ts => (reference ts).bind fun r ts => .ok ⟨columns, r⟩ ts
    | ts => .fail (expectedAt ts .references) ts

theorem foreignKey_key (line : Nat) (ts : Input) :
    foreignKey (⟨.keyword .key, line⟩ :: ts) = (columnList ts).bind keyBehind :=
  rfl

theorem keyBehind_settles (columns : List String) (ts : Input) :
    Settles n (keyBehind columns) ts := by
  by_cases hnone : columns.isEmpty
  · exact settles_expectedAt _ fun _ => if_pos hnone
  have other (hts : ∀ more, keyBehind columns (ts ++ semicolonAt n :: more) =
      .fail (expectedAt (ts ++ semicolonAt n :: more) .references) (ts ++ semicolonAt n :: more)) :
      Settles n (keyBehind columns) ts := settles_expectedAt _ hts
  cases ts with
  | nil => exact other fun _ => if_neg hnone
  | cons p ts =>
    obtain ⟨t, line⟩ := p
    cases t with
    | keyword k =>
      cases k with
      | references =>
        have hreads := (reference_settles (n := n) ts).bind fun r us _ =>
          settles_ok (f := fun ts => .ok (KeyDef.mk columns r) ts) (List.suffix_refl us) fun _ => rfl
        exact hreads.of_eq (List.suffix_cons _ _) fun _ => if_neg hnone
      | _ => exact other fun _ => if_neg hnone
    | _ => exact other fun _ => if_neg hnone

theorem foreignKey_settles (ts : Input) : Settles n foreignKey ts := by
  cases ts with
  | nil => exact settles_expectedAt _ fun _ => rfl
  | cons p ts =>
    obtain ⟨t, line⟩ := p
    cases t with
    | keyword k =>
      cases k with
      | key =>
        have hreads := (columnList_settles (n := n) ts).bind fun columns us _ =>
          keyBehind_settles columns us
        exact hreads.of_eq (List.suffix_cons _ _) fun _ => foreignKey_key line _
      | _ => exact settles_expectedAt _ fun _ => rfl
    | _ => exact settles_expectedAt _ fun _ => rfl

/-! ## Types -/

/-- Parameters without a closing parenthesis go on to the end of the text. -/
theorem paramItems_endedEarly (params : List String) (current : String) {ts : Input}
    (h : ∀ p ∈ ts, p.token ≠ .rparen) : EndedEarly (paramItems params current ts) := by
  induction ts generalizing params current with
  | nil => exact ⟨rfl, rfl⟩
  | cons p rest ih =>
    have hrest : ∀ q ∈ rest, q.token ≠ .rparen := fun q hq => h q (List.mem_cons_of_mem _ hq)
    unfold paramItems
    split
    · exact absurd ‹_› (h p List.mem_cons_self)
    · exact ih _ _ hrest
    · exact ih _ _ hrest
    · exact ih _ _ hrest
    · exact ⟨rfl, ‹_›⟩
    · exact ih _ _ hrest

/-- **A list of parameters** that is still open runs through the semicolon. -/
theorem paramItems_settles (params : List String) (current : String) (ts : Input) :
    Settles n (paramItems params current) ts := by
  induction ts generalizing params current with
  | nil =>
    refine .inr fun more hmore => paramItems_endedEarly params current fun p hp => ?_
    rcases List.mem_cons.1 hp with rfl | hp
    · intro h
      cases h
    · exact hmore.2 p hp
  | cons p rest ih =>
    have hrest : rest <:+ p :: rest := List.suffix_cons _ _
    obtain ⟨t, line⟩ := p
    cases t with
    | rparen => exact settles_ok hrest fun _ => rfl
    | comma => exact (ih _ _).of_eq hrest fun _ => rfl
    | num s | ident s => exact (ih _ _).of_eq hrest fun _ => rfl
    | endOfText => exact settles_endOfText fun _ => ⟨rfl, rfl⟩
    | _ => exact (ih _ _).of_eq hrest fun _ => rfl

theorem typeTail_settles (c : ColumnDef) (ts : Input) : Settles n (typeTail c) ts := by
  generalize hlen : ts.length = len
  induction len using Nat.strongRecOn generalizing ts c with
  | ind len ih =>
    cases ts with
    | nil =>
      apply settles_ok (List.suffix_refl _)
      intro more
      rw [List.nil_append, typeTail]
      rfl
    | cons p rest =>
      have hrest : rest <:+ p :: rest := List.suffix_cons _ _
      have hshort : rest.length < len := by simp only [List.length_cons] at hlen; omega
      obtain ⟨t, line⟩ := p
      have hstop {c : ColumnDef}
          (h : ∀ more, typeTail c (⟨t, line⟩ :: more) = .ok c (⟨t, line⟩ :: more)) :
          Settles n (typeTail c) (⟨t, line⟩ :: rest) :=
        settles_ok (List.suffix_refl _) fun more => h _
      cases t with
      | ident word =>
        by_cases hword : isTypeContinuation word
        · apply (ih _ hshort { c with typeName := c.typeName ++ " " ++ word } rest rfl).of_eq hrest
          intro more
          rw [List.cons_append, typeTail]
          exact if_pos hword
        by_cases hsign : Token.isWord (.ident word) "unsigned" || Token.isWord (.ident word) "signed"
        · apply (ih _ hshort c rest rfl).of_eq hrest
          intro more
          rw [List.cons_append, typeTail]
          dsimp only
          rw [if_neg hword, if_pos hsign]
        · apply hstop
          intro more
          rw [typeTail]
          dsimp only
          rw [if_neg hword, if_neg hsign]
      | dot =>
        cases rest with
        | nil =>
          apply (ih _ hshort c [] rfl).of_eq hrest
          intro more
          rw [List.cons_append, typeTail]
          try rfl
        | cons q rest =>
          cases hq : q.token.nameText? with
          | some part =>
            have hq' : rest <:+ q :: rest := List.suffix_cons _ _
            apply (ih _ (by simp at hshort; omega) { c with typeName := part } rest rfl).of_eq
              (hq'.trans hrest)
            intro more
            rw [List.cons_append, List.cons_append, typeTail]
            simp only [nextToken, hq, List.tail_cons]
          | none =>
            apply (ih _ hshort c (q :: rest) rfl).of_eq hrest
            intro more
            rw [List.cons_append, List.cons_append, typeTail]
            simp only [nextToken, hq]
      | lparen =>
        by_cases hparams : c.params.isEmpty
        · refine Settles.of_eq ((paramItems_settles [] "" rest).bind fun params us hus => ?_) hrest
            fun more => typeTail_lparen rfl hparams _
          exact ih us.length (by have := hus.length_le; omega) { c with params } us rfl
        · apply hstop
          intro more
          rw [typeTail]
          exact if_neg hparams
      | arraySuffix =>
        apply (ih _ hshort { c with typeName := c.typeName ++ "[]" } rest rfl).of_eq hrest
        intro more
        rw [List.cons_append, typeTail]
      | _ => exact hstop fun more => by rw [typeTail]

theorem dataType_settles (c : ColumnDef) (ts : Input) : Settles n (dataType c) ts := by
  cases ts with
  | nil => exact settles_ok (List.suffix_refl _) fun _ => rfl
  | cons p rest =>
    have hrest : rest <:+ p :: rest := List.suffix_cons _ _
    obtain ⟨t, line⟩ := p
    cases t with
    | keyword k =>
      cases k with
      | enum =>
        have hreads := (stringList_settles (n := n) rest).bind fun values us _ =>
          settles_ok (f := fun ts => .ok { c with typeName := "enum", inlineValues := some values } ts)
            (List.suffix_refl us) fun _ => rfl
        exact hreads.of_eq hrest fun _ => rfl
      | _ => exact settles_ok (List.suffix_refl _) fun _ => rfl
    | ident t | quotedIdent t =>
      exact (typeTail_settles { c with typeName := t } rest).of_eq hrest fun _ => rfl
    | _ => exact settles_ok (List.suffix_refl _) fun _ => rfl

/-! ## Modifiers -/

/-- A token that may come next is passed over, and noted. -/
theorem settles_noted {γ : Type} {P : Token → Prop} [DecidablePred P] (hP : ¬ P .semicolon) (a b : γ)
    (ts : Input) :
    Settles n (fun ts => if P (nextToken ts) then .ok a ts.tail else .ok b ts) ts := by
  cases ts with
  | nil => exact settles_ok (List.suffix_refl _) fun _ => if_neg hP
  | cons p rest =>
    by_cases hp : P p.token
    · exact settles_ok (List.suffix_cons _ _) fun _ => if_pos hp
    · exact settles_ok (List.suffix_refl _) fun _ => if_neg hp

theorem modifier_settles (c : ColumnDef) (t : Token) (rest : Input) :
    Settles n (modifier c t) rest := by
  cases t with
  | keyword k =>
    cases k with
    | primary | unique =>
      apply settles_ok (skipToken_suffix rest (.keyword .key))
      intro more
      simp only [modifier]
      rw [skipToken_stops n more (by decide)]
    | not => exact settles_noted (P := (· = .keyword .null)) nofun _ _ rest
    | auto => exact settles_noted (P := (· = .keyword .increment)) nofun _ _ rest
    | on =>
      exact settles_noted (P := fun t => t = .keyword .update ∨ t = .keyword .delete)
        (by simp) c c rest
    | default =>
      apply settles_ok (a := { c with defaultValue := some (defaultValue rest).1 })
        (defaultValue_suffix rest)
      intro more
      simp only [modifier]
      rw [defaultValue_stops]
    | references =>
      exact (reference_settles rest).bind fun r us _ => settles_ok (List.suffix_refl us) fun _ => rfl
    | increment => exact settles_ok (List.suffix_refl _) fun _ => rfl
    | check =>
      apply settles_ok (check_suffix c rest)
      intro more
      simp only [modifier]
      rw [check_stops]
    | «constraint» =>
      apply settles_ok (skipName_suffix rest)
      intro more
      simp only [modifier]
      rw [skipName_stops]
    | _ => exact settles_ok (List.suffix_refl _) fun _ => rfl
  | lparen =>
    apply settles_ok (closeParens_suffix 0 rest)
    intro more
    simp only [modifier]
    rw [closeParens_stops]
  | _ => exact settles_ok (List.suffix_refl _) fun _ => rfl

theorem modifiers_settles (c : ColumnDef) (ts : Input) : Settles n (modifiers c) ts := by
  generalize hlen : ts.length = len
  induction len using Nat.strongRecOn generalizing ts c with
  | ind len ih =>
    cases ts with
    | nil =>
      apply settles_ok (List.suffix_refl _)
      intro more
      rw [List.nil_append, semicolonAt, modifiers]
      rfl
    | cons p rest =>
      have hrest : rest <:+ p :: rest := List.suffix_cons _ _
      by_cases hp : p.token ∈ [Token.comma, .rparen, .semicolon, .endOfText]
      · apply settles_ok (List.suffix_refl _)
        intro more
        rw [List.cons_append, modifiers, if_pos hp]
      · have hreads := (modifier_settles (n := n) c p.token rest).bind fun c us hus =>
          ih us.length (by have := hus.length_le; simp at hlen; omega) c us rfl
        exact hreads.of_eq hrest fun more => modifiers_cons hp c _

theorem column_settles (name : String) (ts : Input) : Settles n (column name) ts :=
  (dataType_settles { name } ts).bind fun c us _ => modifiers_settles c us

/-! ## Tables -/

theorem uniqueColumns_settles (ts : Input) : Settles n uniqueColumns ts := by
  have named {us : Input} (h : us <:+ ts)
      (hts : ∀ more, uniqueColumns (ts ++ semicolonAt n :: more) =
        columnList (skipName (us ++ semicolonAt n :: more))) : Settles n uniqueColumns ts := by
    apply (columnList_settles (skipName us)).of_eq ((skipName_suffix us).trans h)
    intro more
    rw [hts, skipName_stops]
  cases ts with
  | nil => exact named (List.suffix_refl _) fun _ => rfl
  | cons p rest =>
    obtain ⟨t, line⟩ := p
    cases t with
    | keyword k =>
      cases k with
      | key | index => exact named (List.suffix_cons _ _) fun _ => rfl
      | _ => exact named (List.suffix_refl _) fun _ => rfl
    | _ => exact named (List.suffix_refl _) fun _ => rfl

/-- An item that no keyword marks: an index, a clause that means nothing here, or a column. -/
def plainItem (table : TableDef) (t : Token) (rest : Input) : Step TableDef :=
  match t.nameText? with
  | none => .ok table rest
  | some name =>
    if (t = .keyword .index ∨ t = .keyword .key) ∧ isIndexItem rest then
      .ok table (skipItem rest)
    else if t.isWord "like" ∨ t.isWord "exclude" then .ok table (skipItem rest)
    else
      (column name rest).bind fun c rest =>
        .ok { table with columns := table.columns ++ [c] } rest

theorem plainItem_settles (table : TableDef) (t : Token) (rest : Input) :
    Settles n (plainItem table t) rest := by
  cases hname : t.nameText? with
  | none =>
    apply settles_ok (a := table) (List.suffix_refl _)
    intro more
    simp only [plainItem, hname]
  | some name =>
    by_cases hindex : (t = .keyword .index ∨ t = .keyword .key) ∧ isIndexItem rest
    · apply settles_ok (a := table) (skipItem_suffix rest)
      intro more
      simp only [plainItem, hname, isIndexItem_stops, skipItem_stops]
      exact if_pos hindex
    by_cases hclause : t.isWord "like" ∨ t.isWord "exclude"
    · apply settles_ok (a := table) (skipItem_suffix rest)
      intro more
      simp only [plainItem, hname, isIndexItem_stops, skipItem_stops]
      rw [if_neg hindex, if_pos hclause]
    · have hreads := (column_settles (n := n) name rest).bind fun c us _ =>
        settles_ok (f := fun ts => .ok { table with columns := table.columns ++ [c] } ts)
          (List.suffix_refl us) fun _ => rfl
      apply hreads.of_eq (List.suffix_refl _)
      intro more
      simp only [plainItem, hname, isIndexItem_stops]
      rw [if_neg hindex, if_neg hclause]

theorem tableItem_settles (table : TableDef) (t : Token) (rest : Input) :
    Settles n (tableItem table t) rest := by
  -- Behind the columns of a key the rest of the item is passed over.
  have keyed {γ : Type} (value : γ → TableDef) (a : γ) (us : Input) :
      Settles n (fun ts => .ok (value a) (skipItem ts)) us :=
    settles_ok (skipItem_suffix us) fun more => by rw [skipItem_stops]
  have plain := plainItem_settles (n := n) table t rest
  cases t with
  | keyword k =>
    cases k with
    | «constraint» =>
      apply settles_ok (skipName_suffix rest)
      intro more
      simp only [tableItem]
      rw [skipName_stops]
    | primary =>
      have hreads := (columnList_settles (n := n) (skipToken rest (.keyword .key))).bind
        fun columns us _ => keyed
          (fun columns => { table with primaryKey := table.primaryKey ++ columns }) columns us
      apply hreads.of_eq (skipToken_suffix _ _)
      intro more
      simp only [tableItem]
      rw [skipToken_stops n more (by decide)]
    | «foreign» =>
      exact (foreignKey_settles rest).bind fun key us _ =>
        settles_ok (List.suffix_refl us) fun _ => rfl
    | unique =>
      exact (uniqueColumns_settles rest).bind fun columns us _ => keyed (fun columns => { table with
        unique := if columns.isEmpty then table.unique else table.unique ++ [columns] }) columns us
    | check =>
      apply settles_ok (skipParens_suffix rest)
      intro more
      simp only [tableItem]
      rw [skipParens_stops]
    | _ => exact plain
  | _ => exact plain

/-- **The items of a table** stay before the semicolon, or run out. -/
theorem tableItems_settles (table : TableDef) (ts : Input) : Settles n (tableItems table) ts := by
  generalize hlen : ts.length = len
  induction len using Nat.strongRecOn generalizing ts table with
  | ind len ih =>
    cases ts with
    | nil =>
      apply settles_ok (List.suffix_refl _)
      intro more
      rw [List.nil_append, semicolonAt, tableItems]
      rfl
    | cons p rest =>
      have hrest : rest <:+ p :: rest := List.suffix_cons _ _
      have hshort : rest.length < len := by simp at hlen; omega
      by_cases hparen : p.token = .rparen
      · apply settles_ok hrest
        intro more
        rw [List.cons_append, tableItems, if_pos hparen]
      by_cases hcomma : p.token = .comma
      · apply (ih _ hshort table rest rfl).of_eq hrest
        intro more
        rw [List.cons_append, tableItems, if_neg hparen, if_pos hcomma]
      by_cases hend : p.token = .semicolon ∨ p.token = .endOfText
      · apply settles_ok (List.suffix_refl _)
        intro more
        rw [List.cons_append, tableItems, if_neg hparen, if_neg hcomma, if_pos hend]
      · have hp : p.token ∉ [Token.rparen, .comma, .semicolon, .endOfText] := by
          simp [hparen, hcomma, not_or.1 hend]
        have hreads := (tableItem_settles (n := n) table p.token rest).bind fun table us hus =>
          ih us.length (by have := hus.length_le; omega) table us rfl
        exact hreads.of_eq hrest fun more => tableItems_cons hp table _

end

end DdlGraph.Sql
