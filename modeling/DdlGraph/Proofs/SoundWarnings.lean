import DdlGraph.Proofs.InertDefaults
import DdlGraph.Proofs.PlainStatements
import DdlGraph.Proofs.SurveyedTables

/-!
# Warnings of missing columns are sound

A check that lets a text pass may warn that a foreign key refers to a column which its table does
not have. In a plain text this is so in the graph, too: whatever a reader takes for a column of a
table, the check has noted for the table of that name.

* `exists_lookup_of_mem`: what is read of a plain text is noted;
* `findColumn?_eq_none_of_warning`: a column that a warning names is not in the graph;
* `warning_of_key_column`: a column called `key` is, and is warned of all the same.
-/

namespace DdlGraph.Recovery

open Sql Check

/-! ## Tables of the graph -/

/-- Every table of the draft has the sketch of one of the definitions. -/
def Drawn (statements : List Statement) (d : Draft) : Prop :=
  ∀ t ∈ d.tables, ∃ D, .createTable D ∈ statements ∧ t.sketch = D.sketch

section
variable (prior : Prior) {statements : List Statement}

theorem drawn_enumPhase (pool : IdPool) :
    Drawn statements (statements.foldl (Draft.enumPhase prior) { pool }) := by
  intro t ht
  rw [(Draft.foldl_enumPhase_step prior statements _).tables] at ht
  cases ht

theorem Drawn.addTable {d : Draft} (hd : Drawn statements d) {D : TableDef}
    (hD : .createTable D ∈ statements) (htitles : (D.columns.map (Text.lower ·.name)).Nodup) :
    Drawn statements (Draft.addTable prior d D) := by
  cases hnew : d.tableId? D.name with
  | some id =>
    have hsame : (Draft.addTable prior d D).tables = d.tables := by
      unfold Draft.addTable
      rw [hnew]
      rfl
    exact fun t ht => hd t (hsame ▸ ht)
  | none =>
    obtain ⟨t, -, hadd, hsketch, -⟩ := Draft.addTable_fresh prior hnew htitles
    intro t' ht'
    rw [hadd.tables] at ht'
    rcases List.mem_append.1 ht' with ht' | ht'
    · exact hd t' ht'
    · exact ⟨D, hD, List.mem_singleton.1 ht' ▸ hsketch⟩

theorem Drawn.tablePhase {d : Draft} (hd : Drawn statements d)
    (htitles : ∀ D, .createTable D ∈ statements → (D.columns.map (Text.lower ·.name)).Nodup) :
    Drawn statements (statements.foldl (Draft.tablePhase prior) d) :=
  List.foldlRecOn statements (Draft.tablePhase prior) hd fun d hd s hs => by
    cases s with
    | createTable D => exact hd.addTable prior hs (htitles D hs)
    | _ => exact hd

end

/-- **Every table of the graph** has the sketch of a definition, if the titles in each definition
are different. -/
theorem exists_sketch_of_mem (previous : Option Graph) {statements : List Statement}
    (htitles : ∀ D, .createTable D ∈ statements → (D.columns.map (Text.lower ·.name)).Nodup)
    {t : Table} (ht : t ∈ (Draft.ofStatements previous statements).links.1.tables) :
    ∃ D, .createTable D ∈ statements ∧ t.sketch = D.sketch := by
  have htables := (drawn_enumPhase (Prior.ofGraph? previous) (IdPool.ofGraph? previous)).tablePhase
    (Prior.ofGraph? previous) htitles
  have hlate := ((Draft.LateStep.foldl Draft.indexPhase_step statements _).trans
    (.foldl Draft.keyPhase_step statements _)).trans
      (Draft.lateStep_links (Draft.ofStatements previous statements))
  obtain ⟨t', ht', houtline⟩ := exists_mem_of_map_eq hlate.outline.symm ht
  obtain ⟨D, hD, hsketch⟩ := htables t' ht'
  refine ⟨D, hD, ?_⟩
  rw [← Table.sketch_outline, ← houtline, Table.sketch_outline, hsketch]

/-- A column that is found has the title that was looked for, case left aside. -/
theorem findColumn?_spec {t : Table} {title : String} {c : Column}
    (h : t.findColumn? title = some c) : c ∈ t.columns ∧ Text.lower c.title = Text.lower title := by
  rcases Option.or_eq_some_iff.1 h with h | ⟨-, h⟩
  · have hsame : (c.title == title) = true := by simpa using List.find?_some h
    exact ⟨List.mem_of_find?_eq_some h, congrArg Text.lower (beq_iff_eq.1 hsame)⟩
  · have hsame : Text.sameAscii c.title title = true := by simpa using List.find?_some h
    exact ⟨List.mem_of_find?_eq_some h, Text.lower_of_sameAscii hsame⟩

/-! ## Warnings -/

/-- The table of a warning is known, and the column is not among its columns. -/
theorem lookup_of_warning {ts : Input} (hvalid : (Report.mk (checkTokens ts)).isValid)
    {line : Option Nat} {column table : String}
    (h : ⟨line, .undefinedColumn column table⟩ ∈ checkTokens ts) :
    ∃ columns, (Survey.ofTokens ts).tables.lookup (Text.lower table) = some columns ∧
      Text.lower column ∉ columns := by
  obtain ⟨-, hparens, hfindings⟩ := (checkTokens_isValid_iff ts).1 hvalid
  have hmem : (⟨line, .undefinedColumn column table⟩ : Finding) ∈
      (Survey.ofTokens ts).targets.filterMap (Survey.ofTokens ts).targetFinding? := by
    rcases List.mem_append.1 h with h | h
    · rcases List.mem_append.1 h with h | h
      · rcases List.mem_append.1 h with h | h
        · split at h
          · cases h
          · cases List.mem_singleton.1 h
        · rw [hparens] at h
          cases h
      · change _ ∈ (Survey.ofTokens ts).findings at h
        rw [hfindings] at h
        cases h
    · exact h
  obtain ⟨target, -, htarget⟩ := List.mem_filterMap.1 hmem
  unfold Survey.targetFinding? at htarget
  split at htarget
  · cases htarget
  · split at htarget
    · cases htarget
    · rename_i columns hlookup
      split at htarget
      · cases htarget
      · rename_i hcolumn
        cases htarget
        exact ⟨columns, hlookup, mt List.contains_iff_mem.2 hcolumn⟩

/-- **What is read of a plain text is noted**: the table with all its columns, which are
different. -/
theorem exists_lookup_of_mem {text : String}
    (hplain : isPlain (tokens (Dialect.detect text).escapesBackslash text))
    (hvalid : (check text).isValid) {D : TableDef}
    (hD : .createTable D ∈ (Script.ofText text).statements) :
    ∃ columns, (Survey.ofTokens (tokens (Dialect.detect text).escapesBackslash text)).tables.lookup
        (Text.lower D.name) = some columns ∧
      (∀ c ∈ D.columns, Text.lower c.name ∈ columns) ∧
      (D.columns.map (Text.lower ·.name)).Nodup := by
  have hcloses := check_valid_balanced hvalid
  obtain ⟨-, hvalid⟩ := (check_isValid_iff text).1 hvalid
  obtain ⟨-, -, hquiet⟩ := (checkTokens_isValid_iff _).1 hvalid
  rw [Script.ofText] at hD
  obtain ⟨init, last, htokens, hinit, hlast⟩ := List.map_eq_append_iff.1
    (tokens_map_token (Dialect.detect text).escapesBackslash text)
  obtain ⟨e, rfl, he⟩ := List.map_eq_singleton_iff.1 hlast
  have hinner : Inner init := by
    intro p hp hend
    refine endOfText_not_mem_tokensOf (Dialect.detect text).escapesBackslash text.toList ?_
    rw [← hinit, ← hend]
    exact List.mem_map_of_mem hp
  rw [htokens] at hplain hcloses hquiet hD ⊢
  obtain ⟨st, hst, hcreate, hcreates, hreads⟩ := exists_statement_of_mem hinner he hcloses hplain hD
  obtain ⟨name, l, body, hname, hnodup, hlookup⟩ :=
    Survey.lookup_of_quiet hquiet hst hcreate hcreates
  obtain ⟨rfl, hcolumns⟩ := hreads name l body hname
  refine ⟨_, hlookup, fun c hc => ?_, hcolumns.nodup hnodup⟩
  exact List.mem_reverse.2 (hcolumns.subset (List.mem_map_of_mem hc))

/-- **Warnings of missing columns are sound**: in a plain text that is valid, no table of the graph
has the column that a warning names. -/
theorem findColumn?_eq_none_of_warning {text : String} {previous : Option Graph} {o : Outcome}
    (h : recover text previous = .ok o)
    (hplain : isPlain (tokens (Dialect.detect text).escapesBackslash text))
    (hvalid : (check text).isValid) {line : Option Nat} {column table : String}
    (hwarning : ⟨line, .undefinedColumn column table⟩ ∈ (check text).warnings) :
    ∀ t ∈ o.graph.tables, Text.lower t.name = Text.lower table → t.findColumn? column = none := by
  intro t ht htable
  obtain ⟨-, rfl⟩ := recover_eq_ok_iff.1 h
  have hmem : ⟨line, .undefinedColumn column table⟩ ∈
      checkTokens (tokens (Dialect.detect text).escapesBackslash text) := by
    have hfinding := (List.mem_filter.1 hwarning).1
    rw [Check.check, if_neg (by simp [((check_isValid_iff text).1 hvalid).1])] at hfinding
    exact hfinding
  obtain ⟨columns, hlookup, hcolumn⟩ := lookup_of_warning ((check_isValid_iff text).1 hvalid).2 hmem
  obtain ⟨D, hD, hsketch⟩ := exists_sketch_of_mem previous
    (fun D hD => (exists_lookup_of_mem hplain hvalid hD).choose_spec.2.2) ht
  obtain ⟨columns', hlookup', hread, -⟩ := exists_lookup_of_mem hplain hvalid hD
  have hname : t.name = D.name := congrArg Prod.fst hsketch
  obtain rfl : columns' = columns := by
    rw [← hname, htable, hlookup] at hlookup'
    exact (Option.some.inj hlookup').symm
  refine Option.eq_none_iff_forall_ne_some.2 fun c hc => hcolumn ?_
  obtain ⟨hc, hsame⟩ := findColumn?_spec hc
  have htitles : (t.columns.map fun c => (c.title, c.defaultValue)) =
      D.columns.map fun c => (c.name, c.defaultValue) := congrArg Prod.snd hsketch
  obtain ⟨x, hx, hxc⟩ := List.mem_map.1 (htitles ▸ List.mem_map_of_mem hc)
  obtain ⟨htitle, -⟩ := Prod.mk.inj hxc
  rw [← hsame, ← htitle]
  exact hread x hx

/-- A plain text with a constraint behind its column, and a foreign key to a column that is not
there. -/
theorem findColumn?_eq_none_of_warning_users :
    let text := "CREATE TABLE users (id INT, CONSTRAINT one UNIQUE (id));
CREATE TABLE orders (mail TEXT REFERENCES users (mail));"
    ∃ o, recover text none = .ok o ∧
      isPlain (tokens (Dialect.detect text).escapesBackslash text) ∧ (check text).isValid ∧
      ⟨some 2, .undefinedColumn "mail" "users"⟩ ∈ (check text).warnings ∧
      ∀ t ∈ o.graph.tables, Text.lower t.name = Text.lower "users" →
        t.findColumn? "mail" = none := by
  intro text
  obtain ⟨statements, hread, hne⟩ : ∃ statements, (Script.ofText text).statements = statements ∧
      (Draft.ofStatements none statements).links.1.tables ≠ [] :=
    ⟨_, Script.statements_ofList _, by decide +kernel⟩
  obtain ⟨hplain, hvalid, hwarning⟩ :
      isPlain (tokens (Dialect.detect text).escapesBackslash text) ∧ (Check.check text).isValid ∧
      (⟨some 2, .undefinedColumn "mail" "users"⟩ : Finding) ∈ (Check.check text).warnings := by
    rw [check_ofList, Dialect.detect_ofList, tokens_ofList]
    decide +kernel
  have h := recover_of_statements hread none hne
  exact ⟨_, h, hplain, hvalid, hwarning, findColumn?_eq_none_of_warning h hplain hvalid hwarning⟩

/-- **A column called `key`** is in the graph, and a check takes it for a constraint and warns that
it is not there. -/
theorem warning_of_key_column :
    ¬ ∀ (text : String) (o : Outcome), recover text none = .ok o → (check text).isValid →
      ∀ line column table, ⟨line, .undefinedColumn column table⟩ ∈ (check text).warnings →
        ∀ t ∈ o.graph.tables, Text.lower t.name = Text.lower table →
          t.findColumn? column = none := by
  let text := "CREATE TABLE t (id INT, key INT);
CREATE TABLE u (t_key INT REFERENCES t(key));
"
  obtain ⟨statements, hread, hne, t, ht, hname, hcolumn⟩ : ∃ statements,
      (Script.ofText text).statements = statements ∧
      (Draft.ofStatements none statements).links.1.tables ≠ [] ∧
      ∃ t ∈ (Draft.ofStatements none statements).links.1.tables,
        Text.lower t.name = Text.lower "t" ∧ (t.findColumn? "key").isSome :=
    ⟨_, Script.statements_ofList _, by decide +kernel⟩
  obtain ⟨hvalid, hwarning⟩ : (Check.check text).isValid ∧
      (⟨some 2, .undefinedColumn "key" "t"⟩ : Finding) ∈ (Check.check text).warnings := by
    rw [check_ofList]
    decide +kernel
  intro hall
  have h := recover_of_statements hread none hne
  have hnone := hall text _ h hvalid _ _ _ hwarning t ht hname
  rw [hnone] at hcolumn
  cases hcolumn

end DdlGraph.Recovery
