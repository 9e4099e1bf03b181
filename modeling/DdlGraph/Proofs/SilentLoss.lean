import DdlGraph.Proofs.WellFormed

/-!
# Statements that are lost without a word

Errors of a script, and tables without a column list, only count when the script gives no table at
all. Otherwise the graph is that of the other statements, and so are its warnings: a broken
statement leaves no trace in them.

* `ofStatements_readable`: what is not readable does nothing in any phase;
* `recover_isOk_iff`: a graph is recovered just if one definition of a table could be read;
* `loss_reported_iff`: when a loss is reported, and `silent_loss_users`: when it is not.
-/

namespace DdlGraph.Recovery

open Sql

/-! ## What is lost -/

/-- A table without a column list is recognised, but not read. -/
def isReadable : Statement → Bool
  | .malformedTable _ _ => false
  | _ => true

/-- The statements of a script that were read. -/
def readable (statements : List Statement) : List Statement :=
  statements.filter isReadable

/-- **Something is lost**: a statement was wrong, or a table has no column list. -/
def Lossy (script : Script) : Prop :=
  script.errors ≠ [] ∨ ∃ name line, .malformedTable name line ∈ script.statements

/-- **No word of it**: a graph without warnings. -/
def Silent (text : String) (previous : Option Graph) : Prop :=
  ∃ o, recover text previous = .ok o ∧ o.warnings = []

namespace Draft

/-! ## Phases -/

theorem foldl_readable {f : Draft → Statement → Draft}
    (h : ∀ d name line, f d (.malformedTable name line) = d) (statements : List Statement)
    (d : Draft) : (readable statements).foldl f d = statements.foldl f d := by
  unfold readable
  rw [List.foldl_filter]
  congr 1
  funext d s
  cases s with
  | malformedTable name line => exact (h d name line).symm
  | _ => rfl

theorem ofStatements_readable (previous : Option Graph) (statements : List Statement) :
    ofStatements previous (readable statements) = ofStatements previous statements := by
  unfold ofStatements
  dsimp only
  rw [foldl_readable (f := keyPhase) fun _ _ _ => rfl,
    foldl_readable (f := indexPhase) fun _ _ _ => rfl,
    foldl_readable (f := tablePhase _) fun _ _ _ => rfl,
    foldl_readable (f := enumPhase _) fun _ _ _ => rfl]

theorem firstDefinitions_ne_nil {statements : List Statement} :
    firstDefinitions statements ≠ [] ↔ ∃ definition, .createTable definition ∈ statements := by
  have hfirst : ∀ entries : List (String × TableDef),
      (firstOfEach [] entries).map (·.2) = [] ↔ entries = [] := by
    intro entries
    cases entries with
    | nil => simp [firstOfEach]
    | cons entry rest => simp [firstOfEach]
  rw [← not_iff_not, Classical.not_not, firstDefinitions, hfirst, namedDefinitions,
    List.filterMap_eq_nil_iff]
  constructor
  · rintro h ⟨definition, hm⟩
    cases h _ hm
  · intro h s hs
    cases s with
    | createTable definition => exact absurd ⟨definition, hs⟩ h
    | _ => rfl

theorem links_tables_ne_nil (previous : Option Graph) (statements : List Statement) :
    (ofStatements previous statements).links.1.tables ≠ [] ↔
      ∃ definition, .createTable definition ∈ statements := by
  obtain ⟨hc, -⟩ := complete_links previous statements
  rw [← firstDefinitions_ne_nil, ← List.length_pos_iff, ← List.length_pos_iff,
    hc.realizes.length_eq]

end Draft

/-! ## Outcome -/

/-- **A graph is recovered** just if one definition of a table could be read, whatever else could
not. -/
theorem recover_isOk_iff (text : String) (previous : Option Graph) :
    (∃ o, recover text previous = .ok o) ↔
      ∃ definition, .createTable definition ∈ (Script.ofText text).statements := by
  rw [← Draft.links_tables_ne_nil previous]
  constructor
  · rintro ⟨o, h⟩
    exact (recover_eq_ok_iff.1 h).1
  · exact fun h => ⟨_, recover_eq_ok_iff.2 ⟨h, rfl⟩⟩

/-- A graph without warnings has a table, and the statements that could be read give no warning
among themselves. What was lost has no say in either. -/
theorem silent_iff (text : String) (previous : Option Graph) :
    Silent text previous ↔
      (∃ definition, .createTable definition ∈ readable (Script.ofText text).statements) ∧
        (Draft.ofStatements previous (readable (Script.ofText text).statements)).links.1.warnings =
          [] := by
  have hmem : (∃ definition, .createTable definition ∈ readable (Script.ofText text).statements) ↔
      ∃ definition, .createTable definition ∈ (Script.ofText text).statements := by
    simp [readable, isReadable]
  rw [hmem, Draft.ofStatements_readable, ← Draft.links_tables_ne_nil previous]
  constructor
  · rintro ⟨o, h, hw⟩
    obtain ⟨hne, rfl⟩ := recover_eq_ok_iff.1 h
    exact ⟨hne, List.map_eq_nil_iff.1 hw⟩
  · rintro ⟨hne, hw⟩
    exact ⟨_, recover_eq_ok_iff.2 ⟨hne, rfl⟩, List.map_eq_nil_iff.2 hw⟩

/-- **When a loss is reported**: just if no definition of a table could be read, or if the
statements that could be read give a warning of their own. -/
theorem loss_reported_iff (text : String) (previous : Option Graph) :
    (Lossy (Script.ofText text) → ¬ Silent text previous) ↔
      (Lossy (Script.ofText text) →
        (∀ definition, .createTable definition ∉ readable (Script.ofText text).statements) ∨
          (Draft.ofStatements previous
            (readable (Script.ofText text).statements)).links.1.warnings ≠ []) := by
  rw [silent_iff]
  refine imp_congr Iff.rfl ?_
  rw [not_and_or, not_exists]

/-- A table without a column list before one with: the graph has the second table only, and there
is no warning. -/
theorem silent_loss_users :
    Lossy (Script.ofText "CREATE TABLE users;\nCREATE TABLE posts (id INT);") ∧
      Silent "CREATE TABLE users;\nCREATE TABLE posts (id INT);" none := by
  refine ⟨.inr ⟨some "users", 1, ?_⟩, ?_⟩
  · decide +kernel
  · refine ⟨_, recover_eq_ok_iff.2 ⟨?_, rfl⟩, ?_⟩
    · decide +kernel
    · decide +kernel

end DdlGraph.Recovery
