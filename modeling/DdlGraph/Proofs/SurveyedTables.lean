import DdlGraph.Proofs.PlainItems
import DdlGraph.Proofs.Verdict

/-!
# What a survey without findings has noted

A survey adds to what it knows, and never takes a finding back. So where nothing was reported in the
end, nothing was reported at any step: every item has added the name it begins with (`notedName?`),
and every statement that creates a table has added it with the names of its items.

* `Survey.Reports`, `Survey.Grows`: nothing is lost on the way;
* `foldl_item_quiet`: the columns of a table;
* `lookup_of_quiet`: the tables of a text.
-/

namespace DdlGraph.Check

open DdlGraph.Sql

namespace Survey

variable {s s' s'' : Survey}

/-! ## Within a table -/

/-- **Findings are added**, and the tables stay. -/
structure Reports (s s' : Survey) : Prop where
  findings : s.findings <+: s'.findings
  tables : s'.tables = s.tables

theorem Reports.refl (s : Survey) : Reports s s :=
  ⟨List.prefix_rfl, rfl⟩

theorem Reports.trans (h : Reports s s') (h' : Reports s' s'') : Reports s s'' :=
  ⟨h.findings.trans h'.findings, h'.tables.trans h.tables⟩

theorem Reports.quiet (h : Reports s s') (hquiet : s'.findings = []) : s.findings = [] :=
  List.prefix_nil.1 (hquiet ▸ h.findings)

theorem report_reports (s : Survey) (line : Nat) (problem : Problem) :
    Reports s (s.report line problem) :=
  ⟨List.prefix_append _ _, rfl⟩

theorem report_findings_ne_nil (s : Survey) (line : Nat) (problem : Problem) :
    (s.report line problem).findings ≠ [] :=
  List.append_ne_nil_of_right_ne_nil _ (List.cons_ne_nil _ _)

theorem noteTarget_reports (s : Survey) (ts : List Placed) : Reports s (s.noteTarget ts) := by
  induction ts with
  | nil => exact .refl s
  | cons p rest ih =>
    unfold Survey.noteTarget
    split
    · split
      · exact ⟨List.prefix_rfl, rfl⟩
      · exact report_reports s _ _
    · exact ih

theorem noteKeyTarget_reports (s : Survey) (ts : List Placed) : Reports s (s.noteKeyTarget ts) := by
  unfold Survey.noteKeyTarget
  split
  · exact noteTarget_reports s ts
  · exact .refl s

theorem foldl_reportComma_reports (table : String) (starts : List (List Placed)) (s : Survey) :
    Reports s (starts.foldl (reportComma table) s) := by
  refine List.foldlRecOn (motive := Reports s) _ _ (.refl s) fun s' hs start _ => hs.trans ?_
  cases start with
  | nil => exact .refl s'
  | cons p rest => exact report_reports s' _ _

theorem noteColumn_reports (table : String) (r : Survey × List String) (start : List Placed) :
    Reports r.1 (noteColumn table r start).1 := by
  unfold noteColumn
  split
  · exact .refl _
  · split
    · exact .refl _
    · split
      · exact report_reports _ _ _
      · exact .refl _

theorem foldl_noteColumn_reports (table : String) (starts : List (List Placed))
    (r : Survey × List String) : Reports r.1 (starts.foldl (noteColumn table) r).1 :=
  List.foldlRecOn (motive := fun r' : Survey × List String => Reports r.1 r'.1) _ _ (.refl r.1)
    fun _ hr start _ => hr.trans (noteColumn_reports table _ start)

theorem item_reports (enums : List String) (table : String) (r : Survey × List String)
    (ts : List Placed) : Reports r.1 (item enums table r ts).1 := by
  unfold item
  split
  · exact .refl _
  · split
    · exact noteKeyTarget_reports _ _
    · exact (foldl_reportComma_reports table _ r.1).trans
        ((foldl_noteColumn_reports table _ (_, r.2)).trans (noteTarget_reports _ _))

theorem foldl_item_reports (enums : List String) (table : String) (items : List (List Placed))
    (r : Survey × List String) : Reports r.1 (items.foldl (item enums table) r).1 :=
  List.foldlRecOn (motive := fun r' : Survey × List String => Reports r.1 r'.1) _ _ (.refl r.1)
    fun _ hr ts _ => hr.trans (item_reports enums table _ ts)

/-! ## Items -/

theorem missingCommas_ne_nil {enums : List String} {depth last : Nat} {ts : List Placed} :
    ∀ start ∈ missingCommas enums depth last ts, start ≠ [] := by
  have cons {p : Placed} {rest : List Placed} {starts : List (List Placed)}
      (h : ∀ start ∈ starts, start ≠ []) : ∀ start ∈ (p :: rest) :: starts, start ≠ [] :=
    List.forall_mem_cons.2 ⟨List.cons_ne_nil _ _, h⟩
  induction ts generalizing depth last with
  | nil => exact nofun
  | cons p rest ih =>
    unfold missingCommas
    dsimp only
    split
    · exact ih
    · exact ih
    · split
      · exact cons ih
      · exact ih
    · split
      · exact cons ih
      · exact ih
    · exact ih

theorem foldl_reportComma_quiet {table : String} {starts : List (List Placed)}
    (h : ∀ start ∈ starts, start ≠ [])
    (hquiet : (starts.foldl (reportComma table) s).findings = []) : starts = [] := by
  cases starts with
  | nil => rfl
  | cons start starts =>
    have hfirst := (foldl_reportComma_reports table starts _).quiet hquiet
    cases start with
    | nil => exact absurd rfl (h [] (.head _))
    | cons p rest => exact absurd hfirst (report_findings_ne_nil s _ _)

/-- **An item without findings** adds the name it begins with, if this is the name of a column. -/
theorem item_quiet {enums : List String} {table : String} {r : Survey × List String}
    {ts : List Placed} (hquiet : (item enums table r ts).1.findings = []) :
    (item enums table r ts).2 = (notedName? ts).toList ++ r.2 ∧
      ∀ name ∈ notedName? ts, name ∉ r.2 := by
  cases ts with
  | nil => exact ⟨rfl, by simp [notedName?]⟩
  | cons p rest =>
    by_cases hword : isConstraintWord p.token
    · rw [item, if_pos hword, notedName?, if_pos hword]
      exact ⟨rfl, by simp⟩
    rw [item, if_neg hword] at hquiet ⊢
    rw [notedName?, if_neg hword]
    have hcolumns := (noteTarget_reports _ _).quiet hquiet
    have hcommas := (foldl_noteColumn_reports table _ (_, r.2)).quiet hcolumns
    have hstarts := foldl_reportComma_quiet missingCommas_ne_nil hcommas
    simp only [hstarts, List.foldl_nil, List.foldl_cons] at hcolumns ⊢
    rw [noteColumn] at hcolumns ⊢
    cases hname : p.token.nameText? with
    | none => exact ⟨rfl, by simp⟩
    | some name =>
      simp only [hname] at hcolumns ⊢
      by_cases hknown : r.2.contains (Text.lower name)
      · rw [if_pos hknown] at hcolumns
        exact absurd hcolumns (report_findings_ne_nil r.1 _ _)
      · rw [if_neg hknown]
        refine ⟨rfl, fun name' hname' => ?_⟩
        obtain rfl := Option.some.inj hname'
        exact mt List.contains_iff_mem.2 hknown

/-- **The columns of a table**: all the names that its items begin with, and these are different. -/
theorem foldl_item_quiet {enums : List String} {table : String} {items : List (List Placed)}
    {r : Survey × List String} (hquiet : (items.foldl (item enums table) r).1.findings = [])
    (hr : r.2.Nodup) :
    (items.foldl (item enums table) r).2 = (items.filterMap notedName?).reverse ++ r.2 ∧
      ((items.filterMap notedName?).reverse ++ r.2).Nodup := by
  induction items generalizing r with
  | nil => exact ⟨rfl, hr⟩
  | cons ts items ih =>
    rw [List.foldl_cons] at hquiet ⊢
    obtain ⟨hnoted, hfresh⟩ := item_quiet ((foldl_item_reports enums table items _).quiet hquiet)
    have hnodup : (item enums table r ts).2.Nodup := by
      rw [hnoted]
      cases hname : notedName? ts with
      | none => exact hr
      | some name => exact List.nodup_cons.2 ⟨hfresh name hname, hr⟩
    obtain ⟨hfold, hitems⟩ := ih hquiet hnodup
    rw [hnoted] at hfold hitems
    rw [hfold]
    cases hname : notedName? ts <;> simpa [hname] using hitems

/-! ## Statements -/

/-- **Nothing is lost**: findings and tables are added at the end. -/
structure Grows (s s' : Survey) : Prop where
  findings : s.findings <+: s'.findings
  tables : s.tables <+: s'.tables

theorem Grows.trans (h : Grows s s') (h' : Grows s' s'') : Grows s s'' :=
  ⟨h.findings.trans h'.findings, h.tables.trans h'.tables⟩

theorem Reports.grows (h : Reports s s') : Grows s s' :=
  ⟨h.findings, h.tables ▸ List.prefix_rfl⟩

theorem table_grows (enums : List String) (line : Nat) (s : Survey) (ts : List Placed) :
    Grows s (table enums line s ts) := by
  unfold table
  split
  · exact (report_reports s _ _).grows
  · split
    · exact (report_reports s _ _).grows
    · rename_i name _ body _ _
      have h := foldl_item_reports enums name (splitItems [] 0 body) (s, [])
      exact ⟨h.findings, h.tables ▸ List.prefix_append _ _⟩
  · exact (report_reports s _ _).grows

theorem statement_grows (enums : List String) (s : Survey) (ts : List Placed) :
    Grows s (statement enums s ts) := by
  unfold statement
  split
  · exact (Reports.refl s).grows
  · split
    · exact table_grows enums _ s _
    · split
      · exact (noteKeyTarget_reports s _).grows
      · exact (Reports.refl s).grows

/-- **A table without findings** is added with the names of its items. -/
theorem table_quiet {enums : List String} {line : Nat} {ts : List Placed}
    (hquiet : (table enums line s ts).findings = []) :
    ∃ name l body, qualifiedName? (afterTable ts) = some (name, ⟨.lparen, l⟩ :: body) ∧
      ((splitItems [] 0 body).filterMap notedName?).Nodup ∧
      (table enums line s ts).tables.lookup (Text.lower name) =
        some ((splitItems [] 0 body).filterMap notedName?).reverse := by
  unfold table at hquiet ⊢
  split at hquiet
  · exact absurd hquiet (report_findings_ne_nil s _ _)
  · rename_i name l body hname
    split at hquiet
    · exact absurd hquiet (report_findings_ne_nil s _ _)
    · rename_i hnew
      obtain ⟨hcolumns, hnodup⟩ := foldl_item_quiet (r := (s, [])) hquiet List.nodup_nil
      rw [List.append_nil] at hcolumns hnodup
      refine ⟨name, l, body, hname, (List.reverse_perm _).nodup_iff.1 hnodup, ?_⟩
      simp only [if_neg hnew]
      rw [(foldl_item_reports enums name _ (s, [])).tables, List.lookup_append, hcolumns,
        Option.not_isSome_iff_eq_none.1 hnew]
      simp
  · exact absurd hquiet (report_findings_ne_nil s _ _)

/-- **The tables of a text** without findings. -/
theorem lookup_of_quiet {ts : List Placed} (hquiet : (ofTokens ts).findings = []) {st : List Placed}
    (hst : st ∈ splitStatements [] 0 ts) (hcreate : nextToken st = .keyword .create)
    (hcreates : createsTable st) :
    ∃ name l body, qualifiedName? (afterTable st) = some (name, ⟨.lparen, l⟩ :: body) ∧
      ((splitItems [] 0 body).filterMap notedName?).Nodup ∧
      (ofTokens ts).tables.lookup (Text.lower name) =
        some ((splitItems [] 0 body).filterMap notedName?).reverse := by
  unfold ofTokens at hquiet ⊢
  dsimp only at hquiet ⊢
  generalize (splitStatements [] 0 ts).filterMap declaredEnum? = enums at hquiet ⊢
  obtain ⟨before, after, hsplit⟩ := List.append_of_mem hst
  rw [hsplit, List.foldl_append, List.foldl_cons] at hquiet ⊢
  have hlater (s : Survey) : Grows s (after.foldl (statement enums) s) :=
    List.foldlRecOn (motive := Grows s) _ _ (Reports.refl s).grows
      fun _ hs ts _ => hs.trans (statement_grows enums _ ts)
  cases st with
  | nil => cases hcreate
  | cons p rest =>
    have htable (s : Survey) : statement enums s (p :: rest) = table enums p.line s (p :: rest) :=
      if_pos ⟨hcreate, hcreates⟩
    rw [htable] at hquiet ⊢
    have hlater := hlater (table enums p.line (before.foldl (statement enums) {}) (p :: rest))
    have hquiet := List.prefix_nil.1 (hquiet ▸ hlater.findings)
    obtain ⟨name, l, body, hname, hnodup, hlookup⟩ := table_quiet hquiet
    exact ⟨name, l, body, hname, hnodup, hlater.tables.lookup_eq_some hlookup⟩

end Survey

end DdlGraph.Check
