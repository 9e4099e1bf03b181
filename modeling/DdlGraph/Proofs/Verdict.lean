import DdlGraph.Check.Survey

/-!
# What makes a text invalid

All that a survey of statements reports stands in the way of a text, and what is wrong with the
targets of its foreign keys never does. So a text is valid exactly if a table is created, the
parentheses are balanced, and the survey has nothing to report.

* `Survey.blocks_ofTokens`: what a survey reports stands in the way;
* `check_isValid_iff`: valid texts.
-/

namespace DdlGraph.Check

open DdlGraph.Sql

namespace Survey

/-- Whatever was reported stands in the way. -/
def Blocks (s : Survey) : Prop :=
  ∀ f ∈ s.findings, f.isWarning = false

variable {s : Survey}

theorem Blocks.report (h : s.Blocks) (line : Nat) {problem : Problem}
    (hp : problem.isWarning = false) : (s.report line problem).Blocks := by
  intro f hf
  rcases List.mem_append.1 hf with hf | hf
  · exact h f hf
  · obtain rfl := List.mem_singleton.1 hf
    exact hp

theorem Blocks.noteTarget (h : s.Blocks) (ts : List Placed) : (s.noteTarget ts).Blocks := by
  induction ts with
  | nil => exact h
  | cons p rest ih =>
    unfold Survey.noteTarget
    split
    · split
      · exact h
      · exact h.report p.line rfl
    · exact ih

theorem Blocks.noteKeyTarget (h : s.Blocks) (ts : List Placed) : (s.noteKeyTarget ts).Blocks := by
  unfold Survey.noteKeyTarget
  split
  · exact h.noteTarget ts
  · exact h

theorem Blocks.reportComma (h : s.Blocks) (table : String) (start : List Placed) :
    (Survey.reportComma table s start).Blocks := by
  cases start with
  | nil => exact h
  | cons p rest => exact h.report p.line rfl

theorem Blocks.noteColumn {r : Survey × List String} (h : r.1.Blocks) (table : String)
    (start : List Placed) : (Survey.noteColumn table r start).1.Blocks := by
  unfold Survey.noteColumn
  split
  · exact h
  · split
    · exact h
    · split
      · exact h.report _ rfl
      · exact h

theorem Blocks.item {r : Survey × List String} (h : r.1.Blocks) (enums : List String)
    (table : String) (ts : List Placed) : (Survey.item enums table r ts).1.Blocks := by
  unfold Survey.item
  split
  · exact h
  · split
    · exact h.noteKeyTarget _
    · dsimp only
      refine Blocks.noteTarget ?_ _
      refine List.foldlRecOn (motive := fun r : Survey × List String => r.1.Blocks) _ _ ?_
        fun r hr start _ => hr.noteColumn table start
      exact List.foldlRecOn (motive := Blocks) _ _ h fun s hs start _ => hs.reportComma table start

theorem Blocks.table (h : s.Blocks) (enums : List String) (line : Nat) (ts : List Placed) :
    (Survey.table enums line s ts).Blocks := by
  unfold Survey.table
  split
  · exact h.report line rfl
  · split
    · exact h.report line rfl
    · exact List.foldlRecOn (motive := fun r : Survey × List String => r.1.Blocks) _ _ h
        fun r hr ts _ => hr.item enums _ ts
  · exact h.report line rfl

theorem Blocks.statement (h : s.Blocks) (enums : List String) (ts : List Placed) :
    (Survey.statement enums s ts).Blocks := by
  unfold Survey.statement
  split
  · exact h
  · split
    · exact h.table enums _ _
    · split
      · exact h.noteKeyTarget _
      · exact h

/-- The survey of the tokens of a text. -/
def ofTokens (ts : List Placed) : Survey :=
  let statements := splitStatements [] 0 ts
  statements.foldl (Survey.statement (statements.filterMap declaredEnum?)) {}

/-- **What a survey reports** stands in the way. -/
theorem blocks_ofTokens (ts : List Placed) : (ofTokens ts).Blocks :=
  List.foldlRecOn (motive := Blocks) _ _ (fun _ hf => absurd hf List.not_mem_nil) fun _ hs ts _ =>
    hs.statement _ ts

/-- What is wrong with a target does not stand in the way. -/
theorem isWarning_targetFinding {t : Target} {f : Finding} (h : s.targetFinding? t = some f) :
    f.isWarning = true := by
  unfold targetFinding? at h
  split at h
  · cases h
  · split at h
    · obtain rfl := Option.some.inj h
      rfl
    · split at h
      · cases h
      · obtain rfl := Option.some.inj h
        rfl

end Survey

/-- **Valid tokens**: a table is created, the parentheses are balanced, and the survey has nothing
to report. -/
theorem checkTokens_isValid_iff (ts : List Placed) :
    (Report.mk (checkTokens ts)).isValid = true ↔
      createsSomeTable ts = true ∧ parenFindings [] ts = [] ∧ (Survey.ofTokens ts).findings = [] := by
  have hnone : ∀ {fs : List Finding}, (∀ f ∈ fs, f.isWarning = false) →
      (fs.all Finding.isWarning = true ↔ fs = []) := by
    intro fs hfs
    refine ⟨fun hall => List.eq_nil_iff_forall_not_mem.2 fun f hf => ?_, fun h => h ▸ rfl⟩
    exact absurd (List.all_eq_true.1 hall f hf) (by rw [hfs f hf]; exact Bool.false_ne_true)
  have htargets : ((Survey.ofTokens ts).targets.filterMap
      (Survey.ofTokens ts).targetFinding?).all Finding.isWarning = true := by
    refine List.all_eq_true.2 fun f hf => ?_
    obtain ⟨t, -, ht⟩ := List.mem_filterMap.1 hf
    exact Survey.isWarning_targetFinding ht
  have htable : (if createsSomeTable ts then ([] : List Finding) else [⟨none, .noTable⟩]) = [] ↔
      createsSomeTable ts = true := by
    split <;> simp_all
  have hfirst : ∀ f ∈ (if createsSomeTable ts then ([] : List Finding) else [⟨none, .noTable⟩]),
      f.isWarning = false := by
    split
    · exact fun f hf => absurd hf List.not_mem_nil
    · simp [Finding.isWarning, Problem.isWarning]
  change ((if createsSomeTable ts then ([] : List Finding) else [⟨none, .noTable⟩]) ++
    parenFindings [] ts ++ (Survey.ofTokens ts).findings ++
      (Survey.ofTokens ts).targets.filterMap (Survey.ofTokens ts).targetFinding?).all _ = true ↔ _
  simp only [List.all_append, Bool.and_eq_true]
  rw [hnone hfirst, htable, hnone fun f hf => isWarning_parenFindings hf,
    hnone (Survey.blocks_ofTokens ts), and_iff_left htargets, and_assoc]

/-- **Valid texts** are not blank, and their tokens are valid. -/
theorem check_isValid_iff (text : String) :
    (check text).isValid = true ↔ Text.isBlankText text = false ∧
      (Report.mk (checkTokens
        (tokens (Dialect.detect text).escapesBackslash text))).isValid = true := by
  unfold check
  split
  · rename_i h
    simp [h, Report.isValid, Finding.isWarning, Problem.isWarning]
  · rename_i h
    simp [h]

end DdlGraph.Check
