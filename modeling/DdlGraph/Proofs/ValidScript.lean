import DdlGraph.Proofs.DialectTypes
import DdlGraph.Proofs.ScriptText
import DdlGraph.Proofs.SurveyTokens

/-!
# Texts of graphs are valid

The text of a graph of built-in types, without defaults, keys and enumerations, is a script whose
tokens say its tables and their titles to a survey, and nothing else.

* `typeTokens_clauses`: the tokens of a column behind its name;
* `Graph.Bare.spellsSays_script`: what the text of a graph says;
* `check_script_isValid_iff`: it is valid exactly if the names of its tables, and the titles in each
  table, differ in more than case.
-/

namespace DdlGraph.Ddl

open DdlGraph.Sql DdlGraph.Check

/-! ## The text of a graph -/

theorem all_isListed_intercalate {α : Type} {f : α → Token} (h : ∀ a, isListed (f a) = true)
    (as : List α) : ([Token.comma].intercalate (as.map fun a => [f a])).all isListed = true := by
  induction as with
  | nil => rfl
  | cons a as ih =>
    cases as with
    | nil => simp [h]
    | cons a' as =>
      rw [List.map_cons] at ih
      rw [List.map_cons, List.map_cons, List.intercalate_cons_cons, List.all_append,
        List.all_append, ih, List.all_cons, h]
      rfl

/-- The type of a column: a word, and a tail. -/
def TypeTokens (text : List Char) : Prop :=
  ∃ word ts, ItemTail ts ∧ ∀ b, Reads b text (.ident word :: ts)

theorem itemTail_brackets (n : Nat) : ItemTail (List.replicate n .arraySuffix) := by
  induction n with
  | zero => exact .nil
  | succ n ih => exact .token (by decide) ih

theorem typeTokens_word {word : String} {params : List String}
    (h : spells Lexeme.isWord word [.ident word] = true) (hp : ∀ p ∈ params, IsDigits p) (n : Nat) :
    TypeTokens (typeText word params n) := by
  refine ⟨word, paramTokens params ++ List.replicate n Token.arraySuffix, ?_,
    reads_typeText h n hp⟩
  unfold paramTokens
  split
  · exact itemTail_brackets n
  · rw [List.cons_append, List.cons_append, List.append_assoc]
    exact .parens (all_isListed_intercalate (fun _ => rfl) params) (itemTail_brackets n)

/-- A modifier goes on the type. -/
theorem TypeTokens.modify {text mod : List Char} {ts : List Token} (h : TypeTokens text)
    (hm : ItemTail ts) (hreads : ∀ b, Reads b mod ts) : TypeTokens (text ++ " ".toList ++ mod) := by
  obtain ⟨word, us, hus, hword⟩ := h
  refine ⟨word, us ++ ts, hus.append hm, fun b => ?_⟩
  have hblank : Closed b " ".toList [] := closed_fixed (by decide) b
  have hall := ((hword b).append_closed hblank (by decide) (by decide)).append_reads (hreads b)
  rw [List.append_nil] at hall
  exact hall

theorem typeTokens_of_isOwnName {text : String} (h : IsOwnName text) : TypeTokens text.toList := by
  rcases h with rfl | ⟨x, hx, ht⟩
  · exact ⟨"DOUBLE", [.ident "PRECISION"], .token (by decide) .nil, reads_fixed (by decide)⟩
  · obtain ⟨hword, hdigits, -⟩ := ownNames_word x hx
    rw [ht]
    exact typeTokens_word hword hdigits 0

theorem typeTokens_counting (base : String) (dialect : Dialect) :
    TypeTokens (renderCountingType base dialect).toList := by
  have hword := countingNames_word _ (renderCountingType_mem base dialect)
  generalize renderCountingType base dialect = word at hword
  exact ⟨word, [], .nil, reads_literal hword⟩

/-- **The type of a column** that is no enumeration, in every dialect. -/
theorem typeTokens_typeClause {base : String} {n : Nat} {c : Column} (h : BuiltIn base n c)
    (s : Settings) (g : Graph) (keyHere : Bool) :
    TypeTokens ((typeClause s g c keyHere).text s).toList := by
  have hcounting := typeTokens_counting c.dataType s.dialect
  unfold typeClause
  rw [h.enumName?]
  dsimp only
  split
  · split
    · split
      · have hmark : " PRIMARY KEY AUTOINCREMENT".toList =
            " ".toList ++ "PRIMARY KEY AUTOINCREMENT".toList := by decide
        unfold Clause.text
        rw [String.toList_append, hmark, ← List.append_assoc]
        exact hcounting.modify (.token (by decide) (.token (by decide) (.token (by decide) .nil)))
          (reads_fixed (by decide : (_, [.keyword .primary, .keyword .key, .keyword .increment]) ∈ _))
      · exact hcounting
    · have hmark : " AUTO_INCREMENT".toList = " ".toList ++ "AUTO_INCREMENT".toList := by decide
      unfold Clause.text
      rw [String.toList_append, hmark, ← List.append_assoc]
      exact hcounting.modify (.token (by decide) .nil)
        (reads_fixed (by decide : (_, [.keyword .increment]) ∈ _))
    · exact hcounting
  · rcases h.renderType_cases s.dialect with hown | htext
    · exact typeTokens_of_isOwnName hown
    · unfold Clause.text
      rw [htext]
      exact typeTokens_word (builtIn_word h.mem).2.2.2 h.params n

/-- The clauses behind a type, if there is no default and no key. -/
theorem exists_clauseTokens (s : Settings) {clause : Clause}
    (h : clause ∈ [Clause.notNull, .unique, .primaryKey]) :
    ∃ ts, ItemTail ts ∧ ∀ b, Reads b (clause.text s).toList ts := by
  have hnotNull : ∀ b, Reads b "NOT NULL".toList [.keyword .not, .keyword .null] :=
    reads_fixed (by decide)
  have hunique : ∀ b, Reads b "UNIQUE".toList [.keyword .unique] := reads_fixed (by decide)
  have hprimary : ∀ b, Reads b "PRIMARY KEY".toList [.keyword .primary, .keyword .key] :=
    reads_fixed (by decide)
  simp only [List.mem_cons, List.not_mem_nil, or_false] at h
  rcases h with rfl | rfl | rfl
  · exact ⟨_, .token (by decide) (.token (by decide) .nil), hnotNull⟩
  · exact ⟨_, .token (by decide) .nil, hunique⟩
  · exact ⟨_, .token (by decide) (.token (by decide) .nil), hprimary⟩

/-- A type with clauses behind it. -/
theorem typeTokens_join {text : String} (s : Settings) {clauses : List Clause}
    (h : TypeTokens text.toList) (hc : ∀ c ∈ clauses, c ∈ [Clause.notNull, .unique, .primaryKey]) :
    TypeTokens (Text.join " " (text :: clauses.map (Clause.text s))).toList := by
  induction clauses generalizing text with
  | nil => exact h
  | cons clause clauses ih =>
    obtain ⟨ts, hts, hreads⟩ := exists_clauseTokens s (hc clause (.head _))
    have hj : Text.join " " (text :: (clause :: clauses).map (Clause.text s)) =
        Text.join " " ((text ++ " " ++ clause.text s) :: clauses.map (Clause.text s)) :=
      rfl
    rw [hj]
    refine ih ?_ fun c hm => hc c (.tail _ hm)
    rw [String.toList_append, String.toList_append]
    exact h.modify hts hreads

/-- **The clauses of a column** of a built-in type that has no default and no key. -/
theorem typeTokens_clauses {base : String} {n : Nat} {c : Column} (h : BuiltIn base n c)
    (hd : c.defaultValue = none) (s : Settings) (g : Graph) (promoted : Bool) :
    TypeTokens (Text.join " " ((clauses s g promoted none c).map (Clause.text s))).toList := by
  have hkey : clauseKey s none = none := by
    unfold clauseKey
    split <;> rfl
  rw [clauses_eq, List.map_cons, hkey]
  refine typeTokens_join s (typeTokens_typeClause h s g _) fun clause hclause => ?_
  unfold modifyingClauses at hclause
  simp only [hd, Option.map_none, Option.toList_none, List.nil_append, List.append_nil,
    List.map_append, List.mem_append] at hclause
  rcases hclause with (hm | hm) | hm
  all_goals
    split at hm
    · obtain rfl := List.mem_singleton.1 hm
      decide
    · cases hm

/-! ### Tables -/

/-- What the items of a table say to a survey. -/
def itemTitles (t : Table) : List (Option String) :=
  (t.columns.map fun c => some c.title) ++ if promotesKey t [] then [none] else []

theorem titles_itemTitles (t : Table) :
    (itemTitles t).filterMap id = t.columns.map (·.title) := by
  unfold itemTitles
  rw [List.filterMap_append, List.filterMap_map]
  split <;> simp

theorem exists_forall₂ {α β : Type} {R : α → β → Prop} {as : List α} (h : ∀ a ∈ as, ∃ b, R a b) :
    ∃ bs, List.Forall₂ R as bs := by
  induction as with
  | nil => exact ⟨[], .nil⟩
  | cons a as ih =>
    obtain ⟨b, hb⟩ := h a (.head _)
    obtain ⟨bs, hbs⟩ := ih fun a' ha' => h a' (.tail _ ha')
    exact ⟨b :: bs, .cons hb hbs⟩

/-- **The items of a bare table** say its titles. -/
theorem exists_itemTokens {t : Table} (htypes : ∀ c ∈ t.columns, ∃ base n, BuiltIn base n c)
    (hd : ∀ c ∈ t.columns, c.defaultValue = none) (s : Settings) (g : Graph) (b : Bool) :
    ∃ tss, List.Forall₂ ItemSays (itemTitles t) tss ∧
      List.Forall₂ (fun text ts => Reads b text.toList ts)
        ((items s g t []).map (Item.text s (nameWidth s t))) tss := by
  obtain ⟨tss, hcolumns⟩ : ∃ tss, List.Forall₂ (fun c ts => ItemSays (some c.title) ts ∧
      Reads b ((Item.column c.title (clauses s g (promotesKey t []) none c)).text s
        (nameWidth s t)).toList ts) t.columns tss := by
    refine exists_forall₂ fun c hc => ?_
    obtain ⟨base, n, hbuilt⟩ := htypes c hc
    obtain ⟨word, ts, hts, hreads⟩ := typeTokens_clauses hbuilt (hd c hc) s g (promotesKey t [])
    exact ⟨_, .column (nameToken_cases s c.title) hts, reads_columnText s (hreads b) _⟩
  have hkey : ItemSays none ([.keyword .primary, .keyword .key, .lparen] ++
      [Token.comma].intercalate (((primaryColumns t).map (·.title)).map fun n => [nameToken s n]) ++
        [.rparen]) := by
    have hlisted : ∀ name, isListed (nameToken s name) = true := by
      intro name
      rcases nameToken_cases s name with h | h <;> rw [h] <;> rfl
    have hall := all_isListed_intercalate hlisted ((primaryColumns t).map (·.title))
    exact .primaryKey (.token (by decide) (.parens hall .nil))
  have hitems : items s g t [] =
      (t.columns.map fun c => .column c.title (clauses s g (promotesKey t []) none c)) ++
        if promotesKey t [] then [.primaryKey ((primaryColumns t).map (·.title))] else [] := by
    unfold items
    simp [keyOfColumn?]
  rw [hitems]
  unfold itemTitles
  by_cases hp : promotesKey t [] = true
  · rw [if_pos hp, if_pos hp, List.map_append, List.map_map]
    refine ⟨tss ++ [_], List.rel_append ?_ (.cons hkey .nil),
      List.rel_append ?_ (.cons (reads_primaryKeyText s b _ _) .nil)⟩
    · exact List.forall₂_map_left_iff.2 (hcolumns.imp fun _ _ h => h.1)
    · exact List.forall₂_map_left_iff.2 (hcolumns.imp fun _ _ h => h.2)
  · rw [if_neg hp, if_neg hp, List.append_nil, List.append_nil, List.map_map]
    exact ⟨tss, List.forall₂_map_left_iff.2 (hcolumns.imp fun _ _ h => h.1),
      List.forall₂_map_left_iff.2 (hcolumns.imp fun _ _ h => h.2)⟩

/-- The text spells statements that say `defs`. -/
def SpellsSays (b : Bool) (text : List Char) (defs : List (Option (String × List (Option String)))) :
    Prop :=
  ∃ tss, List.Forall₂ StatementSays defs tss ∧ Closed b text (scriptTokens tss)

theorem SpellsSays.append {b : Bool} {xs ys : List Char}
    {defs defs' : List (Option (String × List (Option String)))} (h : SpellsSays b xs defs)
    (h' : SpellsSays b ys defs') : SpellsSays b (xs ++ ys) (defs ++ defs') := by
  obtain ⟨tss, hsaid, hclosed⟩ := h
  obtain ⟨uss, hsaid', hclosed'⟩ := h'
  refine ⟨tss ++ uss, List.rel_append hsaid hsaid', ?_⟩
  rw [scriptTokens_append]
  exact hclosed.append hclosed'

theorem SpellsSays.of_closed {b : Bool} {text : List Char} (h : Closed b text []) :
    SpellsSays b text [] :=
  ⟨[], .nil, h⟩

theorem SpellsSays.flatMap {α : Type} {b : Bool} {text : α → List Char}
    {defs : α → List (Option (String × List (Option String)))} {as : List α}
    (h : ∀ a ∈ as, SpellsSays b (text a) (defs a)) :
    SpellsSays b (as.flatMap text) (as.flatMap defs) := by
  induction as with
  | nil => exact .of_closed .nil
  | cons a as ih =>
    rw [List.flatMap_cons, List.flatMap_cons]
    exact (h a (.head _)).append (ih fun a' ha' => h a' (.tail _ ha'))

theorem spellsSays_index (s : Settings) (t : Table) (c : Column) (b : Bool) :
    SpellsSays b (indexText s t c).toList [none] := by
  have hname : ∀ name, nameToken s name ∉ .keyword .table :: partingTokens := by
    intro name
    rcases nameToken_cases s name with h | h <;> simp [h, partingTokens]
  have hmarks : Balanced (indexMarkTokens s) ∧ .keyword .table ∉ indexMarkTokens s := by
    unfold indexMarkTokens
    split
    · exact ⟨.nil, List.not_mem_nil⟩
    · exact ⟨.token (by decide) (.token (by decide) (.token (by decide) .nil)), by decide⟩
  have hbalanced : ∀ name, Balanced [nameToken s name] := fun name =>
    .token (fun h => hname name (.tail _ h)) .nil
  have hrest : Balanced (indexMarkTokens s ++ ([nameToken s (indexName t c)] ++ ([.keyword .on] ++
      ([nameToken s t.name] ++ .lparen :: ([nameToken s c.title] ++ [.rparen]))))) :=
    hmarks.1.append ((hbalanced _).append ((Balanced.token (by decide) .nil).append
      ((hbalanced _).append (.parens (hbalanced _) .nil))))
  have htable : .keyword .table ∉ (indexMarkTokens s ++ ([nameToken s (indexName t c)] ++
      ([.keyword .on] ++ ([nameToken s t.name] ++ .lparen :: ([nameToken s c.title] ++
        [.rparen]))))) := by
    have hne : ∀ name, Token.keyword .table ≠ nameToken s name := fun name h =>
      hname name (h ▸ .head _)
    simp [hmarks.2, hne]
  refine ⟨[_], .cons (.index hrest htable) .nil, ?_⟩
  have hclosed := closed_indexText s t c b
  simp only [scriptTokens, List.flatMap_cons, List.flatMap_nil, List.append_nil, List.cons_append,
    List.nil_append, List.append_assoc] at hclosed ⊢
  exact hclosed

/-- What the statements of a table say to a survey. -/
def tableSays (t : Table) : List (Option (String × List (Option String))) :=
  some (t.name, itemTitles t) :: (indexedColumns t).map fun _ => none

theorem spellsSays_table {t : Table} (htypes : ∀ c ∈ t.columns, ∃ base n, BuiltIn base n c)
    (hd : ∀ c ∈ t.columns, c.defaultValue = none) (s : Settings) (g : Graph) (b : Bool) :
    SpellsSays b (tableText s g [] t).toList (tableSays t) := by
  obtain ⟨tss, hsaid, hreads⟩ := exists_itemTokens htypes hd s g b
  have hdefinition : SpellsSays b ("CREATE TABLE IF NOT EXISTS " ++ quote s t.name ++ " (\n" ++
      itemLines ((items s g t []).map (Item.text s (nameWidth s t))) ++ ");\n").toList
        [some (t.name, itemTitles t)] := by
    refine ⟨[_], .cons (.table (nameToken_cases s t.name) hsaid) .nil, ?_⟩
    have hclosed := closed_tableText s t.name (closed_itemLines hreads)
    simp only [scriptTokens, createTableTokens, List.flatMap_cons, List.flatMap_nil,
      List.append_nil, List.cons_append, List.nil_append, List.append_assoc] at hclosed ⊢
    exact hclosed
  have hindexes : SpellsSays b ((indexedColumns t).flatMap fun c => (indexText s t c).toList)
      ((indexedColumns t).flatMap fun _ => [none]) :=
    .flatMap fun c _ => spellsSays_index s t c b
  have hend : Closed b "\n".toList [] := closed_fixed (by decide) b
  have hall := (hdefinition.append hindexes).append (.of_closed hend)
  have hinside : (if inlinesKeys s then ([] : List KeySpec).filter (·.sourceTable == t.name)
      else []) = [] := by
    split <;> rfl
  unfold tableText tableSays
  rw [List.append_nil, ← List.map_eq_flatMap] at hall
  dsimp only
  rw [hinside, String.toList_append, String.toList_append, toList_join_empty, List.flatMap_map]
  exact hall

end DdlGraph.Ddl

namespace DdlGraph

open DdlGraph.Sql DdlGraph.Ddl DdlGraph.Check

/-! ### Bare graphs -/

/-- **Bare graph**: tables whose columns have built-in types, and nothing else. -/
structure Graph.Bare (g : Graph) : Prop where
  types : ∀ t ∈ g.tables, ∀ c ∈ t.columns, ∃ base n, BuiltIn base n c
  defaults : ∀ t ∈ g.tables, ∀ c ∈ t.columns, c.defaultValue = none
  keys : ∀ t ∈ g.tables, ∀ c ∈ t.columns, c.foreignKey = none
  enums : g.enums = []
  edges : g.edges = []

namespace Graph.Bare

variable {g : Graph} (hg : g.Bare)
include hg

/-- A bare graph has no keys. -/
theorem keysOf_eq_nil : keysOf g = [] := by
  have hall : allKeys g = [] := by
    have hnone : ∀ t ∈ g.tables, t.columns.filterMap (KeySpec.ofColumn? t) = [] := by
      intro t ht
      refine List.filterMap_eq_nil_iff.2 fun c hc => ?_
      unfold KeySpec.ofColumn?
      rw [hg.keys t ht c hc]
      rfl
    unfold allKeys Graph.foreignKeys
    rw [hg.edges, List.flatMap_eq_nil_iff.2 hnone]
    rfl
  unfold keysOf
  rw [hall]
  rfl

/-- **The text of a bare graph** spells what its tables say. -/
theorem spellsSays_script (s : Settings) {time : String} (ht : '\n' ∉ time.toList) (b : Bool) :
    SpellsSays b (script s time g).toList (g.tables.flatMap tableSays) := by
  have htables : SpellsSays b (g.tables.flatMap fun t => (tableText s g [] t).toList)
      (g.tables.flatMap tableSays) :=
    .flatMap fun t hm => spellsSays_table (hg.types t hm) (hg.defaults t hm) s g b
  have henums : enumSection s g = "" := by
    unfold enumSection
    rw [hg.enums]
    exact if_neg (by simp)
  have hkeys : keySection s [] = "" := by
    unfold keySection
    simp
  rw [toList_script, hg.keysOf_eq_nil, henums, hkeys, String.append_empty, String.toList_empty,
    List.append_nil]
  exact (SpellsSays.of_closed (closed_header s ht b)).append htables

end Graph.Bare

theorem filterMap_tableSays (tables : List Table) :
    (tables.flatMap tableSays).filterMap id = tables.map fun t => (t.name, itemTitles t) := by
  induction tables with
  | nil => rfl
  | cons t tables ih =>
    have hindexes : ((indexedColumns t).map fun _ => none).filterMap
        (id : Option (String × List (Option String)) → _) = [] := by
      simp
    rw [List.flatMap_cons, List.filterMap_append, ih]
    exact congrArg ((t.name, itemTitles t) :: · ++ _) hindexes

/-- The text of a graph is not blank. -/
theorem isBlankText_script (s : Settings) (time : String) (g : Graph) :
    Text.isBlankText (script s time g) = false := by
  have hmem : '-' ∈ (script s time g).toList := by
    unfold script header
    simp
  unfold Text.isBlankText
  refine Bool.eq_false_iff.2 fun hall => ?_
  exact absurd (List.all_eq_true.1 hall '-' hmem) (by decide)

/-- **The text of a bare graph is valid** exactly if it has tables, and the names of its tables, and
the titles in each of them, differ in more than case. -/
theorem check_script_isValid_iff {g : Graph} (hg : g.Bare) (s : Settings) {time : String}
    (ht : '\n' ∉ time.toList) :
    (check (script s time g)).isValid = true ↔ g.tables ≠ [] ∧
      (g.tables.map fun t => Text.lower t.name).Nodup ∧
        ∀ t ∈ g.tables, (t.columns.map fun c => Text.lower c.title).Nodup := by
  rw [check_isValid_iff, isBlankText_script, and_iff_right rfl]
  generalize (Dialect.detect (script s time g)).escapesBackslash = b
  obtain ⟨tss, hsaid, hclosed⟩ := hg.spellsSays_script s ht b
  have htokens : (tokens b (script s time g)).map (·.token) = scriptTokens tss ++ [.endOfText] := by
    have htext := hclosed []
    rw [List.append_nil, tokensOf_nil, List.append_nil] at htext
    rw [tokens_map_token, htext]
  cases hg' : g.tables with
  | nil =>
    rw [hg'] at hsaid
    cases hsaid
    obtain ⟨p, qs, hps, hp, hqs⟩ := List.map_eq_cons_iff.1 htokens
    obtain rfl := List.map_eq_nil_iff.1 hqs
    rw [hps, checkTokens_isValid_iff]
    simp [createsSomeTable, hp]
  | cons t tables =>
    have hfirst : (t :: tables).flatMap tableSays = some (t.name, itemTitles t) ::
        ((indexedColumns t).map (fun _ => none) ++ tables.flatMap tableSays) := rfl
    have hnames := filterMap_tableSays (t :: tables)
    rw [hg', hfirst] at hsaid
    rw [hfirst] at hnames
    rw [checkTokens_script hsaid htokens, hnames, List.map_map, List.forall_mem_map]
    simp only [titles_itemTitles, List.map_map, ne_eq, reduceCtorEq, not_false_eq_true, true_and]
    exact Iff.rfl

/-- Two tables, whose titles are quoted where they are no plain names. -/
theorem check_script_isValid_iff_orders :
    let users : Table :=
      { id := "t1", name := "users"
        columns := [{ title := "id", dataType := "integer", autoIncrement := true,
                      constraints := [.primary] },
                    { title := "full name", dataType := "varchar", params := ["80"] }] }
    let orders : Table :=
      { id := "t2", name := "order"
        columns := [{ title := "id", dataType := "bigint", constraints := [.primary] },
                    { title := "line", dataType := "integer", constraints := [.primary] },
                    { title := "weight\nkg", dataType := "double", constraints := [.index] }] }
    let g : Graph := { tables := [users, orders] }
    let s : Settings := { caseSensitive := false }
    g.Bare ∧ '\n' ∉ "T".toList ∧ (check (script s "T" g)).isValid = true := by
  intro users orders g s
  have htypes : ∀ t ∈ g.tables, ∀ c ∈ t.columns, ∃ base n, BuiltIn base n c := by
    have hall : ∀ t ∈ g.tables, ∀ c ∈ t.columns, c.dataType ∈ builtInTypes ∧
        Text.lower c.dataType = arrayOf c.dataType 0 ∧ ∀ p ∈ c.params, IsDigits p := by
      decide
    intro t ht c hc
    obtain ⟨hmem, htype, hparams⟩ := hall t ht c hc
    exact ⟨c.dataType, 0, hmem, htype, hparams⟩
  have hg : g.Bare := ⟨htypes, by decide, by decide, rfl, rfl⟩
  have htime : '\n' ∉ "T".toList := by decide
  exact ⟨hg, htime, (check_script_isValid_iff hg s htime).2 (by decide)⟩

/-- **Titles that are added** one after the other may differ in the case of a letter outside of
ASCII, and then the text is invalid. -/
theorem check_script_accents :
    ¬ ∀ (s : Settings) (time : String) (g : Graph), g.Bare → '\n' ∉ time.toList → g.tables ≠ [] →
      (g.tables.map fun t => Text.lower t.name).Nodup →
      (∀ t ∈ g.tables, ∃ columns : List Column,
        t.columns = (columns.foldl Table.addColumn { id := t.id, name := t.name }).columns) →
      (check (script s time g)).isValid = true := by
  let columns : List Column :=
    [{ title := "É", dataType := "integer" }, { title := "é", dataType := "integer" }]
  let t : Table := columns.foldl Table.addColumn { id := "t1", name := "notes" }
  let g : Graph := { tables := [t] }
  intro hall
  have hbuilt : ∀ c ∈ t.columns, BuiltIn "integer" 0 c := by
    have hinteger : ∀ c ∈ t.columns, Text.lower c.dataType = arrayOf "integer" 0 ∧
        ∀ p ∈ c.params, IsDigits p := by
      decide
    exact fun c hc => ⟨by decide, (hinteger c hc).1, (hinteger c hc).2⟩
  have hbare : g.Bare :=
    ⟨List.forall_mem_singleton.2 fun c hc => ⟨_, _, hbuilt c hc⟩, by decide, by decide, rfl, rfl⟩
  have hvalid := hall {} "T" g hbare (by decide) (by decide) (by decide)
    (List.forall_mem_singleton.2 ⟨columns, rfl⟩)
  have hinvalid : (check (script {} "T" g)).isValid = false := by decide +kernel
  rw [hinvalid] at hvalid
  cases hvalid

end DdlGraph
