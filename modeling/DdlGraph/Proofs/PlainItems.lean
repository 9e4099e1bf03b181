import DdlGraph.Proofs.ItemReading

/-!
# Items that are what they begin with

A check tells a column from a constraint by the first word of an item and looks no further. A reader
goes through the item: behind a constraint it may come to more columns, and a column may be called
`key`. In an item that is plain (`isPlainItem`) it comes to no other column than the one that the
check notes, and it comes to the end of the item.

* `tableItems_noColumns`: nothing in the item of a constraint is read as a column;
* `tableItems_plainItem`: at most the column that its first word names is read from a plain item;
* `tableItems_items`: at most these columns are read from a list of plain items.
-/

namespace DdlGraph.Sql

open Check

/-! ## Plain items -/

/-- Words that begin an item which means nothing here. -/
def isClauseWord (t : Token) : Bool :=
  t.isWord "like" || t.isWord "exclude"

/-- **No column begins here**: where a constraint is over the item ends, or goes on with another
constraint, the item of an index, or what cannot be a name. -/
def noColumns : Input → Bool
  | [] => true
  | p :: rest => match p.token with
    | .comma | .rparen | .keyword .primary | .keyword .unique => true
    | .lparen => false
    | .keyword .constraint => noColumns (skipName rest)
    | .keyword .check => noColumns (skipParens rest)
    | .keyword .foreign => match (foreignKey rest).result with
      | .ok _ => noColumns (foreignKey rest).rest
      | .error _ => true
    | t =>
      if t.nameText? = none then noColumns rest
      else decide (t = .keyword .index ∨ t = .keyword .key) && isIndexItem rest || isClauseWord t
termination_by ts => ts.length
decreasing_by
  · exact Nat.lt_succ_of_le (skipName_suffix rest).length_le
  · exact Nat.lt_succ_of_le (skipParens_suffix rest).length_le
  · exact Nat.lt_succ_of_le (foreignKey_suffix rest).length_le
  · exact Nat.lt_succ_self _

theorem noColumns_nil : noColumns ([] ++ [⟨.rparen, 0⟩]) := by
  rw [List.nil_append, noColumns]

/-- **The item is what it begins with**: a column whose type has no parentheses in its parameters,
or a constraint behind which no column begins before the item is closed. -/
def isPlainItem : Input → Bool
  | [] => true
  | p :: rest =>
    if Survey.isConstraintWord p.token ∨ p.token.nameText? = none then
      noColumns (p :: (rest ++ [⟨.rparen, 0⟩]))
    else isClauseWord p.token || flatGroups false rest

/-- The column that a check notes for an item, in small letters. -/
def notedName? : Input → Option String
  | [] => none
  | p :: _ => if Survey.isConstraintWord p.token then none else p.token.nameText?.map Text.lower

/-! ## Columns of a table -/

/-- The table gets columns of these names, in small letters and in this order, or of some of
them. -/
def AddsOnly (names : List String) (table table' : TableDef) : Prop :=
  table'.name = table.name ∧ ∃ columns, table'.columns = table.columns ++ columns ∧
    (columns.map (Text.lower ·.name)).Sublist names

theorem AddsOnly.of_columns_eq {table table' : TableDef} (hname : table'.name = table.name)
    (h : table'.columns = table.columns) (names : List String) : AddsOnly names table table' :=
  ⟨hname, [], by rw [h, List.append_nil], List.nil_sublist _⟩

theorem AddsOnly.trans {names names' : List String} {table₁ table₂ table₃ : TableDef}
    (h : AddsOnly names table₁ table₂) (h' : AddsOnly names' table₂ table₃) :
    AddsOnly (names ++ names') table₁ table₃ := by
  obtain ⟨hname, columns, hcolumns, hsub⟩ := h
  obtain ⟨hname', columns', hcolumns', hsub'⟩ := h'
  refine ⟨hname'.trans hname, columns ++ columns', ?_, ?_⟩
  · rw [hcolumns', hcolumns, List.append_assoc]
  · rw [List.map_append]
    exact hsub.append hsub'

/-- **Reading comes to `us`** with no more columns than these, or it fails before. -/
def ComesTo (names : List String) (table : TableDef) (ts us : Input) : Prop :=
  (∃ table', AddsOnly names table table' ∧ tableItems table ts = tableItems table' us) ∨
    ∃ e rest, tableItems table ts = .fail e rest

theorem ComesTo.trans {names names' : List String} {table : TableDef} {ts us vs : Input}
    (h : ComesTo names table ts us) (h' : ∀ table', ComesTo names' table' us vs) :
    ComesTo (names ++ names') table ts vs := by
  rcases h with ⟨table', hadds, heq⟩ | hfail
  · rcases h' table' with ⟨table'', hadds', heq'⟩ | ⟨e, rest, hfail⟩
    · exact .inl ⟨table'', hadds.trans hadds', heq.trans heq'⟩
    · exact .inr ⟨e, rest, heq.trans hfail⟩
  · exact .inr hfail

theorem ComesTo.mono {names names' : List String} {table : TableDef} {ts us : Input}
    (h : ComesTo names table ts us) (hsub : names.Sublist names') : ComesTo names' table ts us :=
  h.imp_left fun ⟨table', ⟨hname, columns, hcolumns, hnames⟩, heq⟩ =>
    ⟨table', ⟨hname, columns, hcolumns, hnames.trans hsub⟩, heq⟩

theorem comesTo_self (names : List String) {table table' : TableDef} {ts us : Input}
    (hadds : AddsOnly names table table') (h : tableItems table ts = tableItems table' us) :
    ComesTo names table ts us :=
  .inl ⟨table', hadds, h⟩

section
variable {q : Placed} {ts : Input} (h : Chunk (q :: ts)) {table : TableDef}
include h

theorem Chunk.not_mem_ends : q.token ∉ [Token.rparen, .comma, .semicolon, .endOfText] := by
  have := h.goes
  simp_all

theorem tableItems_of_ok {more us : Input} {table' : TableDef}
    (hitem : tableItem table q.token (ts ++ more) = .ok table' us) :
    tableItems table (q :: ts ++ more) = tableItems table' us := by
  rw [List.cons_append, tableItems_cons h.not_mem_ends, hitem]
  rfl

theorem tableItems_of_fail {more us : Input} {e : SyntaxError}
    (hitem : tableItem table q.token (ts ++ more) = .fail e us) :
    tableItems table (q :: ts ++ more) = .fail e us := by
  rw [List.cons_append, tableItems_cons h.not_mem_ends, hitem]
  rfl

end

/-! ## Constraints -/

section
variable {p : Placed} (hp : EndsItem p) (more : Input)

/-- **A part of the item is read** without a column, and none begins in `us`, what is left of it. -/
def PassesTo (p : Placed) (more ts us : Input) : Prop :=
  Chunk us ∧ noColumns (us ++ [⟨.rparen, 0⟩]) ∧
    ∀ table, ComesTo [] table (ts ++ p :: more) (us ++ p :: more)

section
variable {more} {q : Placed} {ts : Input} (h : Chunk (q :: ts))
include h

theorem passesTo_of_ok {us : Input} (hus : Chunk us) (hn : noColumns (us ++ [⟨.rparen, 0⟩]))
    (value : TableDef → TableDef) (hname : ∀ table, (value table).name = table.name)
    (hcolumns : ∀ table, (value table).columns = table.columns)
    (hitem : ∀ table,
      tableItem table q.token (ts ++ p :: more) = .ok (value table) (us ++ p :: more)) :
    PassesTo p more (q :: ts) us :=
  ⟨hus, hn, fun table => comesTo_self [] (.of_columns_eq (hname table) (hcolumns table) [])
    (tableItems_of_ok h (hitem table))⟩

theorem passesTo_of_fail (hitem : ∀ table, ∃ e us,
    tableItem table q.token (ts ++ p :: more) = .fail e us) : PassesTo p more (q :: ts) [] := by
  refine ⟨.nil, noColumns_nil, fun table => ?_⟩
  obtain ⟨e, us, he⟩ := hitem table
  exact .inr ⟨e, us, tableItems_of_fail h he⟩

include hp

/-- Behind the columns of a key the rest of the item is passed over. -/
theorem passesTo_of_columns {f : Input → Step (List String)} (hf : Within f ts)
    {value : TableDef → List String → TableDef}
    (hitem : ∀ table us, tableItem table q.token us =
      (f us).bind fun columns us => .ok (value table columns) (skipItem us))
    (hname : ∀ table columns, (value table columns).name = table.name)
    (hcolumns : ∀ table columns, (value table columns).columns = table.columns) :
    PassesTo p more (q :: ts) [] := by
  rcases hf with ⟨columns, us, -, hchunk, hf⟩ | hf
  · refine passesTo_of_ok h .nil noColumns_nil (value · columns) (hname · columns)
      (hcolumns · columns) fun table => ?_
    rw [hitem, hf p more hp]
    exact congrArg (Step.ok _) (hchunk.skipItem hp more)
  · obtain ⟨e, us, he⟩ := hf p more hp
    refine passesTo_of_fail h fun table => ⟨e, us, ?_⟩
    rw [hitem, he]
    rfl

/-- The item of an index, a clause that means nothing here, or a token that cannot be a name. -/
theorem exists_passesTo_of_plainItem
    (hitem : ∀ table us, tableItem table q.token us = plainItem table q.token us)
    (hn : if q.token.nameText? = none then noColumns (ts ++ [⟨.rparen, 0⟩]) else
      decide (q.token = .keyword .index ∨ q.token = .keyword .key) &&
        isIndexItem (ts ++ [⟨.rparen, 0⟩]) || isClauseWord q.token)
    (hq : q.token ≠ .lparen) : ∃ us, us <:+ ts ∧ PassesTo p more (q :: ts) us := by
  have hts := (h.tail hq).2.2
  have hskip := hts.skipItem hp more
  cases hname : q.token.nameText? with
  | none =>
    rw [if_pos hname] at hn
    refine ⟨ts, List.suffix_refl ts,
      passesTo_of_ok h hts hn id (fun _ => rfl) (fun _ => rfl) fun table => ?_⟩
    rw [hitem, plainItem, hname]
    rfl
  | some name =>
    rw [if_neg (by simp [hname]), isIndexItem_mark (.inr (.inl rfl))] at hn
    refine ⟨[], List.nil_suffix,
      passesTo_of_ok h .nil noColumns_nil id (fun _ => rfl) (fun _ => rfl) fun table => ?_⟩
    simp only [hitem, plainItem, hname, isIndexItem_mark hp.isMark, hskip]
    simp only [isClauseWord, Bool.or_eq_true, Bool.and_eq_true, decide_eq_true_eq] at hn
    rcases hn with hindex | hclause
    · rw [if_pos hindex]
      rfl
    · rw [if_pos hclause, ite_self]
      rfl

/-- **One part of an item** in which no column begins. -/
theorem exists_passesTo (hn : noColumns (q :: ts ++ [⟨.rparen, 0⟩])) :
    ∃ us, us <:+ ts ∧ PassesTo p more (q :: ts) us := by
  obtain ⟨t, line⟩ := q
  rw [List.cons_append, noColumns] at hn
  cases t with
  | keyword k =>
    cases k with
    | «constraint» =>
      refine ⟨_, skipName_suffix ts, passesTo_of_ok h
        (keptBehind_chunk.skipName (h.tail nofun).2.2) ?_ id (fun _ => rfl) (fun _ => rfl)
        fun table => congrArg (Step.ok table) (skipName_mark hp.isMark more ts)⟩
      rw [← skipName_mark (.inr (.inl rfl))]
      exact hn
    | check =>
      obtain ⟨hchunk, hskip⟩ := (h.tail nofun).2.2.skipParens
      refine ⟨_, skipParens_suffix ts, passesTo_of_ok h hchunk ?_ id (fun _ => rfl) (fun _ => rfl)
        fun table => congrArg (Step.ok table) (hskip p more hp)⟩
      rw [← hskip _ _ (.inr rfl)]
      exact hn
    | «foreign» =>
      rcases foreignKey_within (h.tail nofun).2.2 with ⟨key, us, hus, hchunk, hkey⟩ | hkey
      · rw [hkey _ _ (.inr rfl)] at hn
        refine ⟨us, hus, passesTo_of_ok h hchunk hn
          (fun table => { table with foreignKeys := table.foreignKeys ++ [key] }) (fun _ => rfl)
          (fun _ => rfl) fun table => ?_⟩
        show (foreignKey _).bind _ = _
        rw [hkey p more hp]
        rfl
      · obtain ⟨e, rest, he⟩ := hkey p more hp
        refine ⟨[], List.nil_suffix, passesTo_of_fail h fun table => ⟨e, rest, ?_⟩⟩
        show (foreignKey _).bind _ = _
        rw [he]
        rfl
    | primary =>
      have hts := (h.tail nofun).2.2
      have hskip : Chunk (skipToken ts (.keyword .key)) := keptBehind_chunk.skipToken hts nofun
      have hkey : Within (fun ts => columnList (skipToken ts (.keyword .key))) ts :=
        (columnList_within hskip).of_eq (skipToken_suffix _ _) fun p more hp =>
          congrArg columnList (skipToken_mark hp.isMark more (by decide) ts)
      exact ⟨[], List.nil_suffix, passesTo_of_columns hp h hkey (fun _ _ => rfl) (fun _ _ => rfl)
        fun _ _ => rfl⟩
    | unique =>
      exact ⟨[], List.nil_suffix, passesTo_of_columns hp h (uniqueColumns_within (h.tail nofun).2.2)
        (fun _ _ => rfl) (fun _ _ => rfl) fun _ _ => rfl⟩
    | _ => exact exists_passesTo_of_plainItem hp h (fun _ _ => rfl) hn nofun
  | lparen => cases hn
  | comma => exact absurd rfl (h.tail nofun).2.1
  | rparen => exact absurd (by decide : Token.rparen ∈ partingTokens) (h.tail nofun).1
  | _ => exact exists_passesTo_of_plainItem hp h (fun _ _ => rfl) hn nofun

end

include hp

/-- **Nothing in the item of a constraint** is read as a column where none begins in it. -/
theorem tableItems_noColumns {ts : Input} (h : Chunk ts) (hn : noColumns (ts ++ [⟨.rparen, 0⟩]))
    (table : TableDef) : ComesTo [] table (ts ++ p :: more) (p :: more) := by
  generalize hlen : ts.length = len
  induction len using Nat.strongRecOn generalizing ts table with
  | ind len ih =>
    cases ts with
    | nil => exact comesTo_self [] (.of_columns_eq rfl rfl []) rfl
    | cons q ts =>
      obtain ⟨us, hsuffix, hpasses⟩ := exists_passesTo hp h hn
      obtain ⟨hus, hnone, hreads⟩ : PassesTo p more (q :: ts) us := hpasses
      have hshort : us.length < len := by
        have := hsuffix.length_le
        simp at hlen
        omega
      exact (hreads table).trans fun table' => ih us.length hshort hus hnone table' rfl

/-! ## Items -/

omit hp in
theorem tableItem_eq_plainItem {t : Token} (ht : ¬ Survey.isConstraintWord t) (table : TableDef)
    (us : Input) : tableItem table t us = plainItem table t us := by
  cases t with
  | keyword k =>
    cases k with
    | «constraint» | primary | unique | check | «foreign» => exact absurd rfl ht
    | _ => rfl
  | _ => rfl

theorem tableItems_plainItem {ts : Input} (h : Chunk ts) (hplain : isPlainItem ts)
    (table : TableDef) :
    ComesTo (notedName? ts).toList table (ts ++ p :: more) (p :: more) := by
  cases ts with
  | nil => exact comesTo_self _ (.of_columns_eq rfl rfl _) rfl
  | cons q rest =>
    rw [isPlainItem] at hplain
    split at hplain
    · exact (tableItems_noColumns hp more h hplain table).mono (List.nil_sublist _)
    rename_i hcolumn
    obtain ⟨hword, hname⟩ := not_or.1 hcolumn
    obtain ⟨name, hname⟩ := Option.ne_none_iff_exists'.1 hname
    have hrest := keptBehind_chunk.name h hname
    have hnoted : notedName? (q :: rest) = some (Text.lower name) := by
      rw [notedName?, if_neg hword, hname]
      rfl
    have hindex (us : Input) : ¬ ((q.token = .keyword .index ∨ q.token = .keyword .key) ∧
        isIndexItem us) := by
      rintro ⟨hq | hq, -⟩ <;> exact hword (hq ▸ rfl)
    rw [hnoted]
    by_cases hclause : q.token.isWord "like" ∨ q.token.isWord "exclude"
    · refine comesTo_self _ (.of_columns_eq rfl rfl _)
        (tableItems_of_ok h ?_ : _ = tableItems table _)
      rw [tableItem_eq_plainItem hword]
      simp only [plainItem, hname, hrest.skipItem hp more, if_neg (hindex _), if_pos hclause]
    · have hflat : flatGroups false rest := by
        simp only [isClauseWord, Bool.or_eq_true] at hplain
        exact hplain.resolve_left hclause
      have hitem (us : Input) : tableItem table q.token us = (column name us).bind fun c us =>
          .ok { table with columns := table.columns ++ [c] } us := by
        rw [tableItem_eq_plainItem hword]
        simp only [plainItem, hname, if_neg (hindex _), if_neg hclause]
      rcases column_reads hrest hflat name with ⟨c, hc, hreads⟩ | hfails
      · have hadds : AddsOnly [Text.lower name] table
            { table with columns := table.columns ++ [c] } := ⟨rfl, [c], rfl, by simp [hc]⟩
        refine comesTo_self _ hadds (tableItems_of_ok h ?_)
        rw [hitem, hreads p more hp]
        rfl
      · obtain ⟨e, us, he⟩ := hfails p more hp
        refine .inr ⟨e, us, tableItems_of_fail h ?_⟩
        rw [hitem, he]
        rfl

end

/-! ## Lists of items -/

/-- **The items** of tokens that commas part. -/
inductive ItemList : Input → List Input → Prop
  | last {ts : Input} (h : Chunk ts) : ItemList ts [ts]
  | cons {ts us : Input} {c : Placed} {items : List Input} (h : Chunk ts) (hc : c.token = .comma)
    (hus : ItemList us items) : ItemList (ts ++ c :: us) (ts :: items)

theorem exists_itemList {ts : Input} (h : Balanced (ts.map (·.token))) :
    ∃ items, ItemList ts items := by
  -- What stands in front of a list of items belongs to the first one.
  have front {us : Input} (front : Input) (hfront : ∀ {ts}, Chunk ts → Chunk (front ++ ts))
      (hus : ∃ items, ItemList us items) : ∃ items, ItemList (front ++ us) items := by
    obtain ⟨items, hus⟩ := hus
    cases hus with
    | last h => exact ⟨_, .last (hfront h)⟩
    | cons h hc hus =>
      rw [← List.append_assoc]
      exact ⟨_, .cons (hfront h) hc hus⟩
  refine balanced_placed (motive := fun ts => ∃ items, ItemList ts items) ⟨_, .last .nil⟩ ?_ ?_ h
  · intro p ps hp ih
    by_cases hcomma : p.token = .comma
    · obtain ⟨items, hps⟩ := ih
      exact ⟨_, ItemList.cons .nil hcomma hps⟩
    · exact front [p] (fun h => .token hp hcomma h) ih
  · intro o inner c ps ho hc hin _ ih
    have := front (o :: (inner ++ [c])) (fun {ts} h => by simpa using Chunk.parens ho hin hc h) ih
    simpa using this

theorem Chunk.splitItems {ts : Input} (h : Chunk ts) (read rest : Input) :
    splitItems read 0 (ts ++ rest) = splitItems (ts.reverse ++ read) 0 rest := by
  induction h generalizing read with
  | nil => rfl
  | token hp hcomma _ ih =>
    rw [List.cons_append, splitItems_token hp hcomma, ih, List.reverse_cons, List.append_assoc]
    rfl
  | @parens o c inner ps ho hin hc _ ih =>
    have hclose (us : Input) : Check.splitItems (inner.reverse ++ o :: read) 1 (c :: us) =
        Check.splitItems (c :: (inner.reverse ++ o :: read)) 0 us := by
      rw [Check.splitItems, hc]
    rw [List.cons_append, Check.splitItems, ho]
    dsimp only
    rw [List.append_assoc, hin.splitItems rfl, List.cons_append, hclose, ih]
    simp

section
variable {ts : Input} {items : List Input} (h : ItemList ts items) {c : Placed}
  (hc : c.token = .rparen) (more : Input)
include h hc

theorem ItemList.splitItems : splitItems [] 0 (ts ++ c :: more) = items := by
  induction h with
  | @last ts h =>
    rw [h.splitItems, Check.splitItems, hc]
    simp
  | @cons ts us comma items h hcomma _ ih =>
    rw [List.append_assoc, List.cons_append, h.splitItems, Check.splitItems, hcomma]
    simp [ih]

/-- **At most the columns that their first words name** are read from plain items. -/
theorem tableItems_items (hplain : ∀ item ∈ items, isPlainItem item) (table : TableDef) :
    ComesTo (items.filterMap notedName?) table (ts ++ c :: more) (c :: more) := by
  induction h generalizing table with
  | @last ts h =>
    have hts := tableItems_plainItem (.inr hc) more h (hplain ts (.head _)) table
    cases hname : notedName? ts <;> simpa [hname] using hts
  | @cons ts us comma items h hcomma _ ih =>
    obtain ⟨hts, hitems⟩ := List.forall_mem_cons.1 hplain
    have hcomma' (table : TableDef) (us : Input) :
        tableItems table (comma :: us) = tableItems table us := by
      rw [tableItems, if_neg (by simp [hcomma]), if_pos hcomma]
    have hreads := (tableItems_plainItem (.inl hcomma) (us ++ c :: more) h hts table).trans
      fun table' => (comesTo_self [] (.of_columns_eq rfl rfl []) (hcomma' table' _)).trans
        (ih hitems)
    rw [List.append_assoc, List.cons_append]
    cases hname : notedName? ts <;> simpa [hname] using hreads

end

/-- **The columns of a table** that is closed and has plain items only, whatever follows it. -/
theorem tableItems_columns {inner : Input} (hin : Balanced (inner.map (·.token))) {c : Placed}
    (hc : c.token = .rparen) {more : Input}
    (hplain : ∀ item ∈ splitItems [] 0 (inner ++ c :: more), isPlainItem item) {more' : Input}
    {table table' : TableDef} (h : (tableItems table (inner ++ c :: more')).result = .ok table') :
    AddsOnly ((splitItems [] 0 (inner ++ c :: more)).filterMap notedName?) table table' := by
  obtain ⟨items, hitems⟩ := exists_itemList hin
  rw [hitems.splitItems hc more] at hplain ⊢
  rcases tableItems_items hitems hc more' hplain table with ⟨table'', hadds, heq⟩ | ⟨e, rest, he⟩
  · rw [heq, tableItems, if_pos hc] at h
    cases h
    exact hadds
  · rw [he] at h
    cases h

end DdlGraph.Sql
