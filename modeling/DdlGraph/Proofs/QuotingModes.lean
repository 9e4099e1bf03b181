import DdlGraph.Proofs.InertDefaults
import DdlGraph.Proofs.SilentLoss

/-!
# Quoted and bare names

Two texts of a graph whose settings are `Alike` differ in the marks around names alone. A bare name
is read as the name, unless it begins an item of another kind, and quote marks move nothing to
another line. So the statements of the two texts are the same, with their lines.

* `lineAfter_tableText`: the tables of both texts take the same lines;
* `tablesFrom_alike`: so they are the same statements;
* `recover_script_unquoted`: the same graph and the same warnings come from both texts, if no title
  is a word that begins another item and the strings of both are escaped alike;
* `recover_script_like`: a column whose title is such a word is lost if it stands bare.
-/

namespace DdlGraph

open Sql Ddl

/-- The settings differ at most in the quoting of names. -/
structure Settings.Alike (s s' : Settings) : Prop where
  dialect : s'.dialect = s.dialect
  inline : s'.inlineConstraints = s.inlineConstraints

theorem Settings.alike_quotes (s : Settings) (quotes : Bool) :
    s.Alike { s with caseSensitive := quotes } :=
  ⟨rfl, rfl⟩

namespace Ddl

/-! ## Lines of a text -/

/-- The number of line ends in a text. -/
def newlines (text : String) : Nat :=
  text.toList.count '\n'

theorem lineAfter_newlines (n : Nat) (text : String) :
    lineAfter n text.toList = n + newlines text :=
  rfl

theorem newlines_append (xs ys : String) : newlines (xs ++ ys) = newlines xs + newlines ys := by
  unfold newlines
  rw [String.toList_append, List.count_append]

theorem newlines_join (separator : String) {xs ys : List String}
    (h : xs.map newlines = ys.map newlines) :
    newlines (Text.join separator xs) = newlines (Text.join separator ys) := by
  unfold newlines Text.join
  rw [String.toList_intercalate, String.toList_intercalate]
  induction xs generalizing ys with
  | nil =>
    obtain rfl := List.map_eq_nil_iff.1 h.symm
    rfl
  | cons x xs ih =>
    obtain ⟨y, ys, rfl, hy, hys⟩ := List.map_eq_cons_iff.1 h.symm
    have hmore := ih hys.symm
    have hlen := congrArg List.length hys
    unfold newlines at hy
    cases xs with
    | nil =>
      obtain rfl := List.map_eq_nil_iff.1 hys
      simp only [List.map_cons, List.map_nil, List.intercalate_singleton, hy]
    | cons x' xs =>
      cases ys with
      | nil => simp at hlen
      | cons y' ys =>
        simp only [List.map_cons, List.intercalate_cons_cons, List.count_append, hy] at hmore ⊢
        rw [hmore]

/-- Texts of each element of a list, in two ways. -/
theorem newlines_join_map {α : Type} (separator : String) {f f' : α → String}
    (h : ∀ a, newlines (f' a) = newlines (f a)) (as : List α) :
    newlines (Text.join separator (as.map f')) = newlines (Text.join separator (as.map f)) :=
  newlines_join separator (by simp only [List.map_map, Function.comp_def, h])

theorem newlines_itemLines {xs ys : List String} (h : xs.map newlines = ys.map newlines) :
    newlines (itemLines xs) = newlines (itemLines ys) := by
  induction xs generalizing ys with
  | nil =>
    obtain rfl := List.map_eq_nil_iff.1 h.symm
    rfl
  | cons x xs ih =>
    obtain ⟨y, ys, rfl, hy, hys⟩ := List.map_eq_cons_iff.1 h.symm
    have hmore := ih hys.symm
    have hlen := congrArg List.length hys
    cases xs with
    | nil =>
      obtain rfl := List.map_eq_nil_iff.1 hys
      simp only [itemLines, newlines_append, hy]
    | cons x' xs =>
      cases ys with
      | nil => simp at hlen
      | cons y' ys => simp only [itemLines, newlines_append, hy, hmore]

theorem count_doubled_of_ne {c d : Char} (h : c ≠ d) (cs : List Char) :
    (doubled c cs).count d = cs.count d := by
  induction cs with
  | nil => rfl
  | cons x cs ih =>
    rw [doubled_cons, List.count_append, ih, List.count_cons]
    by_cases hx : x = c
    · rw [if_pos hx, hx]
      simp [h]
    · rw [if_neg hx, List.count_singleton, Nat.add_comm]

/-- Quote marks are no line ends. -/
theorem newlines_quote (s : Settings) (name : String) : newlines (quote s name) = newlines name := by
  unfold quote
  split
  · rfl
  · have hmark : s.dialect.quoteMark ≠ '\n' := by cases s.dialect <;> decide
    unfold newlines quotedName
    dsimp only
    rw [String.toList_ofList, List.count_append, List.count_cons_of_ne hmark,
      count_doubled_of_ne hmark, List.count_singleton]
    simp [hmark]

/-! ## Texts of settings that are alike -/

section
variable {s s' : Settings} (h : s.Alike s')
include h

theorem inlinesKeys_alike : inlinesKeys s' = inlinesKeys s := by
  unfold inlinesKeys
  rw [h.dialect, h.inline]

theorem enumType_alike (g : Graph) (name title : String) :
    newlines (enumType s' g name title) = newlines (enumType s g name title) := by
  unfold enumType
  rw [h.dialect]
  cases s.dialect <;> cases g.enumByName? name <;>
    simp only [newlines_append, newlines_quote]

theorem isPrimaryKey_alike (g : Graph) (c : Column) (keyHere : Bool) :
    (typeClause s' g c keyHere).isPrimaryKey = (typeClause s g c keyHere).isPrimaryKey := by
  unfold typeClause
  rw [h.dialect]
  cases c.enumName? with
  | none => rfl
  | some name => rfl

omit h in
/-- The text of a clause ends as many lines however names are quoted. -/
theorem newlines_clause (s s' : Settings) (clause : Clause) :
    newlines (clause.text s') = newlines (clause.text s) := by
  cases clause with
  | references key =>
    unfold Clause.text referencesText
    simp only [newlines_append, newlines_quote]
  | _ => rfl

theorem newlines_typeClause (g : Graph) (c : Column) (keyHere : Bool) :
    newlines ((typeClause s' g c keyHere).text s') = newlines ((typeClause s g c keyHere).text s) := by
  unfold typeClause
  cases c.enumName? with
  | none =>
    dsimp only
    rw [h.dialect]
    exact newlines_clause s s' _
  | some name => exact enumType_alike h g name c.title

theorem newlines_clauses (g : Graph) (promoted : Bool) (key : Option KeySpec) (c : Column) :
    ((clauses s' g promoted key c).map (Clause.text s')).map newlines =
      ((clauses s g promoted key c).map (Clause.text s)).map newlines := by
  have hstates : statesKey s' g promoted c = statesKey s g promoted c := by
    unfold statesKey
    dsimp only
    rw [isPrimaryKey_alike h]
  have hmods : modifyingClauses s' (statesKey s g promoted c) (clauseKey s' key) c =
      modifyingClauses s (statesKey s g promoted c) (clauseKey s key) c := by
    unfold modifyingClauses clauseKey
    rw [h.dialect]
  rw [clauses_eq, clauses_eq, hstates, hmods]
  simp only [List.map_cons, List.map_map, newlines_typeClause h]
  refine congrArg _ (List.map_congr_left fun m _ => ?_)
  exact newlines_clause s s' m.1

omit h in
theorem newlines_blanks (n : Nat) : newlines (.ofList (List.replicate n ' ')) = 0 := by
  have hblank : (' ' == '\n') = false := by decide
  unfold newlines
  rw [String.toList_ofList, List.count_replicate, hblank]
  exact if_neg Bool.false_ne_true

omit h in
theorem newlines_columnItem {cs cs' : List Clause}
    (hc : (cs'.map (Clause.text s')).map newlines = (cs.map (Clause.text s)).map newlines)
    (title : String) (width width' : Nat) :
    newlines ((Item.column title cs').text s' width') =
      newlines ((Item.column title cs).text s width) := by
  have hclauses := newlines_join " " hc
  unfold Item.text
  dsimp only
  rw [newlines_append, newlines_append, newlines_append, newlines_append, newlines_append,
    newlines_append, newlines_blanks, newlines_blanks, newlines_quote, newlines_quote, hclauses]

omit h in
theorem newlines_primaryItem (s s' : Settings) (titles : List String) (width width' : Nat) :
    newlines ((Item.primaryKey titles).text s' width') =
      newlines ((Item.primaryKey titles).text s width) := by
  have hnames : newlines (Text.join ", " (titles.map (quote s'))) =
      newlines (Text.join ", " (titles.map (quote s))) :=
    newlines_join_map ", " (fun title => by rw [newlines_quote, newlines_quote]) titles
  unfold Item.text
  dsimp only
  rw [newlines_append, newlines_append, newlines_append, newlines_append, hnames]

omit h in
theorem newlines_keyItem (s s' : Settings) (key : KeySpec) (width width' : Nat) :
    newlines ((Item.foreignKey key).text s' width') =
      newlines ((Item.foreignKey key).text s width) := by
  have hreferences : newlines (referencesText s' key) = newlines (referencesText s key) :=
    newlines_clause s s' (.references key)
  unfold Item.text
  dsimp only
  rw [newlines_append, newlines_append, newlines_append, newlines_append, newlines_append,
    newlines_append, newlines_quote, newlines_quote, hreferences]

theorem newlines_items (g : Graph) (t : Table) (keys : List KeySpec) (width width' : Nat) :
    ((items s' g t keys).map (Item.text s' width')).map newlines =
      ((items s g t keys).map (Item.text s width)).map newlines := by
  have hcolumns : ∀ c, newlines ((Item.column c.title (clauses s' g (promotesKey t keys)
      (keyOfColumn? keys c) c)).text s' width') = newlines ((Item.column c.title (clauses s g
        (promotesKey t keys) (keyOfColumn? keys c) c)).text s width) :=
    fun c => newlines_columnItem (newlines_clauses h g _ _ c) c.title width width'
  unfold items
  dsimp only
  rw [h.dialect]
  by_cases hm : s.dialect = .mysql
  · rw [if_pos hm]
    split <;> simp only [List.map_append, List.map_map, List.map_cons, List.map_nil,
      Function.comp_def, hcolumns, newlines_primaryItem s s' _ width width',
      newlines_keyItem s s' _ width width']
  · rw [if_neg hm]
    split <;> simp only [List.map_append, List.map_map, List.map_cons, List.map_nil,
      Function.comp_def, hcolumns, newlines_primaryItem s s' _ width width']

/-- **A table takes the same lines** however names are quoted. -/
theorem lineAfter_tableText (g : Graph) (keys : List KeySpec) (t : Table) (n : Nat) :
    lineAfter n (tableText s' g keys t).toList = lineAfter n (tableText s g keys t).toList := by
  have hindex : ∀ c, newlines (indexText s' t c) = newlines (indexText s t c) := by
    intro c
    unfold indexText
    rw [h.dialect]
    simp only [newlines_append, newlines_quote]
  have hindexes : newlines (Text.join "" ((indexedColumns t).map (indexText s' t))) =
      newlines (Text.join "" ((indexedColumns t).map (indexText s t))) :=
    newlines_join_map "" hindex (indexedColumns t)
  have hitems := fun inside => newlines_itemLines
    (newlines_items h g t inside (nameWidth s t) (nameWidth s' t))
  rw [lineAfter_newlines, lineAfter_newlines]
  unfold tableText
  dsimp only
  rw [inlinesKeys_alike h]
  simp only [newlines_append, newlines_quote, hitems, hindexes]

theorem lineAfter_start (g : Graph) (time : String) (n : Nat) :
    lineAfter n (header s' time ++ enumSection s' g).toList =
      lineAfter n (header s time ++ enumSection s g).toList := by
  have henum : ∀ e, newlines (enumText s' e) = newlines (enumText s e) := by
    intro e
    unfold enumText
    rw [h.dialect]
    simp only [newlines_append, newlines_quote]
  have henums : newlines (Text.join "" (g.enums.map (enumText s'))) =
      newlines (Text.join "" (g.enums.map (enumText s))) :=
    newlines_join_map "" henum g.enums
  rw [lineAfter_newlines, lineAfter_newlines]
  unfold header enumSection
  rw [h.dialect]
  split <;> simp only [newlines_append, henums]

/-! ## Statements -/

theorem tableDef_alike {g : Graph} {typed : Column → Bool → ColumnDef} (inside : List KeySpec)
    (t : Table) : tableDef s' g typed inside t = tableDef s g typed inside t := by
  have hcolumn : ∀ promoted key c,
      columnDef s' g typed promoted key c = columnDef s g typed promoted key c := by
    intro promoted key c
    unfold columnDef clauseKey statesKey
    dsimp only
    rw [h.dialect, isPrimaryKey_alike h]
  unfold tableDef
  simp only [hcolumn, h.dialect]

/-- **Tables are the same statements** on the same lines. -/
theorem tablesFrom_alike {g : Graph} {typed : Column → Bool → ColumnDef} (n : Nat)
    (tables : List Table) : tablesFrom s' g typed n tables = tablesFrom s g typed n tables := by
  induction tables generalizing n with
  | nil => rfl
  | cons t tables ih =>
    have hstatements : tableStatements s' g typed (keysOf g) t =
        tableStatements s g typed (keysOf g) t := by
      unfold tableStatements insideKeys
      rw [inlinesKeys_alike h, tableDef_alike h]
    rw [tablesFrom, tablesFrom, hstatements, lineAfter_tableText h, ih]

/-- **Two readable texts of a graph are the same script.** -/
theorem ofText_alike {g : Graph} {typed : Column → Bool → ColumnDef} {time : String}
    (ht : '\n' ∉ time.toList)
    (hread : Readable s g typed (Dialect.detect (script s time g)).escapesBackslash)
    (hread' : Readable s' g typed (Dialect.detect (script s' time g)).escapesBackslash) :
    Script.ofText (script s' time g) = Script.ofText (script s time g) := by
  have henums : enumStatements s' g = enumStatements s g := by
    unfold enumStatements
    rw [h.dialect]
  have hkeys : keyStatements s' g = keyStatements s g := by
    unfold keyStatements
    rw [inlinesKeys_alike h]
  rw [ofText_script_lines ht hread, ofText_script_lines ht hread', tablesFrom_alike h,
    lineAfter_start h, henums, hkeys]

/-! ## Types -/

theorem typeClause_text_alike {g : Graph} {c : Column} (hc : c.enumName? = none) (keyHere : Bool) :
    (typeClause s' g c keyHere).text s' = (typeClause s g c keyHere).text s := by
  unfold typeClause
  rw [hc, h.dialect]
  dsimp only
  split
  · split
    · split <;> rfl
    · rfl
    · rfl
  · rfl

omit h in
/-- **The type of a column of an enumeration** is read alike however names are quoted. -/
theorem exists_typeReads_enum {g : Graph} {c : Column} {name : String} {e : Enumeration}
    (hc : c.enumName? = some name) (he : g.enumByName? name = some e) (keyHere : Bool) :
    ∃ d, ∀ s', s.Alike s' → ∀ b,
      (∀ v ∈ e.values, '\\' ∈ v.toList → s.dialect.escapesBackslash = b) →
        TypeReads b ((typeClause s' g c keyHere).text s').toList c.title d := by
  have hclause : ∀ s', typeClause s' g c keyHere = .type (enumType s' g name c.title) := by
    intro s'
    unfold typeClause
    rw [hc]
  cases hd : s.dialect with
  | postgresql =>
    refine ⟨{ name := c.title, typeName := e.name }, fun s' h b _ => ?_⟩
    have htext : enumType s' g name c.title = quote s' e.name := by
      unfold enumType
      rw [h.dialect, hd, he]
    rw [hclause, htext]
    exact typeReads_name s' e.name b c.title
  | mysql =>
    refine ⟨{ name := c.title, typeName := "enum", inlineValues := some e.values },
      fun s' h b hb => ?_⟩
    have htext : enumType s' g name c.title = "ENUM(" ++ stringList .mysql e.values ++ ")" := by
      unfold enumType
      rw [h.dialect, hd, he]
    rw [hclause, htext]
    exact typeReads_enumList hb c.title
  | sqlite =>
    refine ⟨{ name := c.title, typeName := "TEXT", inlineValues := some e.values },
      fun s' h b hb => ?_⟩
    have htext : enumType s' g name c.title =
        "TEXT CHECK (" ++ quote s' c.title ++ " IN (" ++ stringList .sqlite e.values ++ "))" := by
      unfold enumType
      rw [h.dialect, hd, he]
    rw [hclause, htext]
    exact typeReads_enumCheck hb s' c.title

end

/-- A title that is no word before an item names a column, quoted or bare. -/
theorem namesColumn_of_not_mem {name : String} (h : Text.foldAscii name ∉ ["like", "exclude"])
    (s : Settings) : NamesColumn s name := by
  have hword : ∀ word, Text.foldAscii word = word → Text.foldAscii name ≠ word →
      (nameToken s name).isWord word = false := by
    intro word hfold hne
    rcases nameToken_cases s name with ht | ht
    · rw [ht]
      unfold Token.isWord Text.sameAscii
      dsimp only
      rw [hfold]
      exact beq_eq_false_iff_ne.2 hne
    · rw [ht]
      rfl
  simp only [List.mem_cons, List.not_mem_nil, or_false, not_or] at h
  exact ⟨hword "like" (by decide) h.1, hword "exclude" (by decide) h.2⟩

end Ddl

/-! ## Graphs -/

/-- **Graph whose names need no quotes**: its columns have built-in types or those of its
enumerations and no defaults, and no title is a word that begins another item of a table. Foreign
keys, if there are any, have actions that there are. -/
structure Graph.QuoteFree (g : Graph) : Prop where
  nonempty : g.tables ≠ []
  types : ∀ t ∈ g.tables, ∀ c ∈ t.columns, (∃ base n, BuiltIn base n c) ∨
    ∃ name e, c.enumName? = some name ∧ g.enumByName? name = some e
  noDefaults : ∀ t ∈ g.tables, ∀ c ∈ t.columns, c.defaultValue = none
  titles : ∀ t ∈ g.tables, ∀ c ∈ t.columns, Text.foldAscii c.title ∉ ["like", "exclude"]
  actions : g.HasActions

/-- **The strings of a text are read as they are escaped**, if one of them has a backslash. -/
def Graph.EscapesRead (g : Graph) (s : Settings) (time : String) : Prop :=
  (∃ e ∈ g.enums, ∃ v ∈ e.values, '\\' ∈ v.toList) →
    s.dialect.escapesBackslash = (Dialect.detect (script s time g)).escapesBackslash

/-- **The text of such a graph is readable** as the same, however names are quoted. -/
theorem Graph.QuoteFree.exists_readable {g : Graph} (hg : g.QuoteFree) (s : Settings) :
    ∃ typed, ∀ s', s.Alike s' → ∀ b, ((∃ e ∈ g.enums, ∃ v ∈ e.values, '\\' ∈ v.toList) →
      s.dialect.escapesBackslash = b) → Readable s' g typed b := by
  have htypes : ∀ c keyHere, ∃ d, ∀ t ∈ g.tables, c ∈ t.columns → ∀ s', s.Alike s' → ∀ b,
      ((∃ e ∈ g.enums, ∃ v ∈ e.values, '\\' ∈ v.toList) → s.dialect.escapesBackslash = b) →
        TypeReads b ((typeClause s' g c keyHere).text s').toList c.title d := by
    intro c keyHere
    by_cases hc : ∃ t ∈ g.tables, c ∈ t.columns
    · obtain ⟨t, ht, hm⟩ := hc
      rcases hg.types t ht c hm with ⟨base, n, hbuilt⟩ | ⟨name, e, hname, he⟩
      · obtain ⟨d, hreads, -⟩ := hbuilt.exists_typeReads s g keyHere
        refine ⟨d, fun _ _ _ s' h b _ => ?_⟩
        rw [typeClause_text_alike h hbuilt.enumName?]
        exact hreads b
      · obtain ⟨d, hreads⟩ := exists_typeReads_enum (s := s) hname he keyHere
        exact ⟨d, fun _ _ _ s' h b hb => hreads s' h b fun v hv hback =>
          hb ⟨e, List.mem_of_find?_eq_some he, v, hv, hback⟩⟩
    · exact ⟨{ name := "" }, fun t ht hm => absurd ⟨t, ht, hm⟩ hc⟩
  choose typed htyped using htypes
  refine ⟨typed, fun s' h b hb => ⟨fun hd => ?_, fun t ht => ⟨fun c hc => ?_, fun c hc => ?_⟩, ?_⟩⟩
  · cases b with
    | false => exact .inl rfl
    | true =>
      refine .inr fun e he v hv hback => ?_
      have hescapes := hb ⟨e, he, v, hv, hback⟩
      rw [← h.dialect, hd] at hescapes
      cases hescapes
  · exact namesColumn_of_not_mem (hg.titles t ht c hc) s'
  · refine ⟨htyped c _ t ht hc s' h b hb, fun v hv => ?_, fun key hkey => ?_⟩
    · rw [hg.noDefaults t ht c hc] at hv
      cases hv
    · exact Graph.HasActions.of_mem hg.actions (mem_keysOf_of_keyOfColumn? hkey)
  · exact fun key => Graph.HasActions.of_mem hg.actions

namespace Recovery

/-- **Quoted and bare names describe the same graph**, in every dialect, with keys inside of tables
or added to them, and after every graph before: the texts give the same graph and the same
warnings. -/
theorem recover_script_unquoted {g : Graph} (hg : g.QuoteFree) (s : Settings) {time : String}
    (ht : '\n' ∉ time.toList)
    (hescapes : ∀ quotes, g.EscapesRead { s with caseSensitive := quotes } time)
    (previous : Option Graph) :
    ∃ o, recover (script { s with caseSensitive := false } time g) previous = .ok o ∧
      recover (script { s with caseSensitive := true } time g) previous = .ok o := by
  obtain ⟨typed, hread⟩ := hg.exists_readable s
  have hmodes : ∀ quotes, Readable { s with caseSensitive := quotes } g typed
      (Dialect.detect (script { s with caseSensitive := quotes } time g)).escapesBackslash :=
    fun quotes => hread _ (s.alike_quotes quotes) _ (hescapes quotes)
  have halike : Settings.Alike { s with caseSensitive := false } { s with caseSensitive := true } :=
    ⟨rfl, rfl⟩
  have hsame := ofText_alike halike ht (hmodes false) (hmodes true)
  obtain ⟨t, ts, htables⟩ := List.exists_cons_of_ne_nil hg.nonempty
  obtain ⟨o, ho⟩ := (recover_isOk_iff (script { s with caseSensitive := false } time g) previous).2
    (by
      rw [ofText_script_lines ht (hmodes false), htables, tablesFrom]
      exact ⟨_, List.mem_append_left _ (List.mem_append_right _ (.head _))⟩)
  refine ⟨o, ho, ?_⟩
  rw [recover_eq_ok_iff] at ho ⊢
  rw [hsame]
  exact ho

/-- A state that is named by an enumeration, beside a title in two words. -/
theorem recover_script_unquoted_orders :
    let g : Graph :=
      { tables := [
          { id := "t1", name := "orders", columns := [
              { title := "id", dataType := "serial", constraints := [.primary] },
              { title := "order state", dataType := "enum_state" }] }]
        enums := [{ id := "e1", name := "state", values := ["new", "sent"] }] }
    ∃ o, recover (script { caseSensitive := false } "now" g) none = .ok o ∧
      recover (script { caseSensitive := true } "now" g) none = .ok o := by
  intro g
  have htypes : ∀ t ∈ g.tables, ∀ c ∈ t.columns, (∃ base n, BuiltIn base n c) ∨
      ∃ name e, c.enumName? = some name ∧ g.enumByName? name = some e := by
    intro t ht c hc
    obtain rfl := List.mem_singleton.1 ht
    rcases List.mem_cons.1 hc with rfl | hc
    · exact .inl ⟨"serial", 0, by decide, by decide, nofun⟩
    · obtain rfl := List.mem_singleton.1 hc
      exact .inr ⟨"state", { id := "e1", name := "state", values := ["new", "sent"] },
        by decide, by decide⟩
  have hcolumns : ∀ t ∈ g.tables, ∀ c ∈ t.columns, c.defaultValue = none ∧
      Text.foldAscii c.title ∉ ["like", "exclude"] ∧ c.foreignKey = none := by
    decide
  have hg : g.QuoteFree := ⟨by decide, htypes, fun t ht c hc => (hcolumns t ht c hc).1,
    fun t ht c hc => (hcolumns t ht c hc).2.1, fun t ht c hc k hk => by
      rw [(hcolumns t ht c hc).2.2] at hk
      cases hk⟩
  have hplain : ¬∃ e ∈ g.enums, ∃ v ∈ e.values, '\\' ∈ v.toList := by decide
  exact recover_script_unquoted hg {} (show '\n' ∉ "now".toList by decide)
    (fun _ h => absurd h hplain) none

/-- A bare `like` begins an item that is passed over, so the column is lost. -/
theorem recover_script_like :
    let g : Graph :=
      { tables := [
          { id := "t1", name := "posts", columns := [
              { title := "id", dataType := "integer" }, { title := "like", dataType := "text" }] }] }
    ∃ o o', recover (script { caseSensitive := false } "now" g) none = .ok o ∧
      recover (script { caseSensitive := true } "now" g) none = .ok o' ∧ o ≠ o' := by
  intro g
  obtain ⟨o, ho, hbare⟩ : ∃ o, recover (script { caseSensitive := false } "now" g) none = .ok o ∧
      o.graph.tables.map Table.sketch = [("posts", [("id", none)])] :=
    exists_recover_of_sketches (by decide +kernel) (by decide)
  obtain ⟨o', ho', hquoted⟩ : ∃ o, recover (script { caseSensitive := true } "now" g) none = .ok o ∧
      o.graph.tables.map Table.sketch = [("posts", [("id", none), ("like", none)])] :=
    exists_recover_of_sketches (by decide +kernel) (by decide)
  refine ⟨o, o', ho, ho', ?_⟩
  rintro rfl
  rw [hbare] at hquoted
  exact absurd hquoted (by decide)

end Recovery

end DdlGraph
