import DdlGraph.Proofs.ChunkedApply
import Mathlib.Data.List.Induction

/-!
# Refused operations and locked sessions

An operation that is refused leaves the session alone, and while a text is shown only taking it over
can change more than what is shown. A text that cannot be taken over goes, and the one that was
there when it was begun comes back; which one that was is told by the history of the session
(`exists_begun`).

* `error_cases`: the session after an operation that is refused;
* `kept_of_applying`: a session that shows a text is locked;
* `step_of_free`: the operations that change more than the text, one by one;
* `lawful_step`: all of it, after every history.
-/

namespace DdlGraph.Session

variable {s : Session}

/-- Graph, settings and warnings are those from before. -/
structure Kept (s s' : Session) : Prop where
  graph : s'.graph = s.graph
  settings : s'.settings = s.settings
  warnings : s'.warnings = s.warnings

theorem Kept.refl (s : Session) : Kept s s :=
  ⟨rfl, rfl, rfl⟩

theorem isApplying_eq_false_iff : s.isApplying = false ↔ s.pending = none := by
  unfold isApplying
  rw [Option.isSome_eq_false_iff, Option.isNone_iff_eq_none]

/-! ## Refused operations -/

/-- Most operations leave the session alone when they are refused. -/
theorem after_error {r : Except SessionError Session} {e : SessionError}
    (h : (s.after r).1 = .error e) : (s.after r).2 = s := by
  cases r with
  | ok s' => cases h
  | error e' => rfl

/-- **A refused operation** leaves the session alone, but for a text that cannot be taken over: it
goes, and the text from before comes back. -/
theorem error_cases {op : Operation} {e : SessionError} (h : (s.step op).1 = .error e) :
    (s.step op).2 = s ∨ ∃ p, s.pending = some p ∧ op = .commitApply ∧
      (s.step op).2 = { s with text := p.previousText, pending := none } := by
  cases op with
  | regenerate time => cases h
  | updateSettings settings time => exact .inl (after_error h)
  | editGraph edit time => exact .inl (after_error h)
  | applyText text => exact .inl (after_error h)
  | beginApply text n => exact .inl (after_error h)
  | nextChunk => exact .inl (after_error h)
  | cancelApply => exact .inl (after_error h)
  | commitApply =>
    simp only [step, commitApply] at h ⊢
    split at h
    · exact .inl rfl
    · rename_i p hp
      split at h
      · cases h
      · exact .inr ⟨p, hp, trivial, rfl⟩

/-! ## Locked sessions -/

theorem kept_regenerate (s : Session) (time : String) : Kept s (s.regenerate time) :=
  ⟨rfl, rfl, rfl⟩

theorem kept_after {r : Except SessionError Session} (h : ∀ s', r = .ok s' → Kept s s') :
    Kept s (s.after r).2 := by
  cases r with
  | ok s' => exact h s' rfl
  | error e => exact .refl s

theorem kept_beginApply {s' : Session} {text : String} {n : Nat}
    (h : s.beginApply text n = .ok s') : Kept s s' := by
  unfold beginApply at h
  split at h
  · cases h
  · cases h
    exact ⟨rfl, rfl, rfl⟩

theorem kept_nextChunk {s' : Session} (h : s.nextChunk.map (·.2) = .ok s') : Kept s s' := by
  unfold nextChunk at h
  split at h
  · cases h
  · split at h
    · cases h
      exact .refl s
    · cases h
      exact ⟨rfl, rfl, rfl⟩

theorem kept_cancelApply {s' : Session} (h : s.cancelApply = .ok s') : Kept s s' := by
  unfold cancelApply at h
  split at h
  · cases h
  · cases h
    exact ⟨rfl, rfl, rfl⟩

/-- **A session that shows a text is locked**: only taking the text over changes more than what is
shown. -/
theorem kept_of_applying (h : s.isApplying = true) {op : Operation} (hop : op ≠ .commitApply) :
    Kept s (s.step op).2 := by
  cases op with
  | regenerate time => exact kept_regenerate s time
  | updateSettings settings time =>
    simp only [step, updateSettings, h, if_true, after]
    exact .refl s
  | editGraph edit time =>
    simp only [step, editGraph, h, if_true, after]
    exact .refl s
  | applyText text =>
    simp only [step, applyText, h, if_true, after]
    exact .refl s
  | beginApply text n => exact kept_after fun _ => kept_beginApply
  | nextChunk => exact kept_after fun _ => kept_nextChunk
  | cancelApply => exact kept_after fun _ => kept_cancelApply
  | commitApply => exact absurd rfl hop

/-! ## Free sessions -/

/-- **What an operation changes in a session that shows no text**: settings, graph or what a text
brings with it, in three operations that succeed, and nothing else but the text. -/
theorem step_of_free (h : s.isApplying = false) (op : Operation) :
    Kept s (s.step op).2 ∨
      (∃ settings time, op = .updateSettings settings time ∧
        s.step op = (.ok (), { s with settings }.regenerate time)) ∨
      (∃ edit time, op = .editGraph edit time ∧
        s.step op = (.ok (), { s with graph := edit s.graph }.regenerate time)) ∨
      ∃ text a, op = .applyText text ∧ s.step op = (.ok (), s.commitWith a) := by
  cases op with
  | regenerate time => exact .inl (kept_regenerate s time)
  | updateSettings settings time =>
    refine .inr (.inl ⟨settings, time, rfl, ?_⟩)
    simp only [step, updateSettings, h, Bool.false_eq_true, if_false, after]
  | editGraph edit time =>
    refine .inr (.inr (.inl ⟨edit, time, rfl, ?_⟩))
    simp only [step, editGraph, h, Bool.false_eq_true, if_false, after]
  | applyText text =>
    simp only [step, applyText, h, Bool.false_eq_true, if_false]
    cases Applied.ofText s.graph text with
    | ok a => exact .inr (.inr (.inr ⟨text, a, rfl, rfl⟩))
    | error e => exact .inl (.refl s)
  | beginApply text n => exact .inl (kept_after fun _ => kept_beginApply)
  | nextChunk => exact .inl (kept_after fun _ => kept_nextChunk)
  | cancelApply => exact .inl (kept_after fun _ => kept_cancelApply)
  | commitApply =>
    have hnone := isApplying_eq_false_iff.1 h
    simp only [step, commitApply, hnone]
    exact .inl (.refl s)

/-! ## Histories -/

theorem run_append (s : Session) (ops ops' : List Operation) :
    s.run (ops ++ ops') = (s.run ops).run ops' :=
  List.foldl_append

/-- After the operations `ops`, the session shows a text that was begun by one of them. -/
def Begun (s : Session) (ops : List Operation) (text : String) (before : List Operation) : Prop :=
  ∃ n during, ops = before ++ .beginApply text n :: during ∧ (s.run before).pending = none ∧
    ∀ op ∈ during, op.isFinal = false

/-- What the session shows then was brought in at the beginning of the showing. -/
theorem Begun.showing {ops before : List Operation} {text : String}
    (h : Begun s ops text before) : Showing (s.run before) text (s.run ops) := by
  obtain ⟨n, during, rfl, hfree, hduring⟩ := h
  rw [run_append]
  exact (showing_begin hfree text n).run during hduring

/-- Only one operation begins to show a text. -/
theorem pending_step_of_free (h : s.pending = none) {op : Operation}
    (hop : ∀ text n, op ≠ .beginApply text n) : (s.step op).2.pending = none := by
  have hfree := isApplying_eq_false_iff.2 h
  cases op with
  | regenerate time => exact h
  | updateSettings settings time =>
    simp only [step, updateSettings, hfree, Bool.false_eq_true, if_false, after]
    exact h
  | editGraph edit time =>
    simp only [step, editGraph, hfree, Bool.false_eq_true, if_false, after]
    exact h
  | applyText text =>
    simp only [step, applyText, hfree, Bool.false_eq_true, if_false]
    cases Applied.ofText s.graph text <;> exact h
  | beginApply text n => exact absurd rfl (hop text n)
  | nextChunk =>
    simp only [step, nextChunk, h, Except.map, after]
  | cancelApply =>
    simp only [step, cancelApply, h, after]
  | commitApply =>
    simp only [step, commitApply, h]

/-- The two ends of the showing end it. -/
theorem pending_step_of_final {op : Operation} (hop : op.isFinal = true) :
    (s.step op).2.pending = none := by
  cases hs : s.pending with
  | none => exact pending_step_of_free hs fun text n he => by subst he; cases hop
  | some p =>
    cases op with
    | cancelApply => simp only [step, cancelApply, hs, after]
    | commitApply =>
      simp only [step, commitApply, hs]
      split <;> rfl
    | _ => cases hop

/-- **A text that is shown was begun**: one operation of the history began it, on a session that
showed none, and none after it ended the showing. -/
theorem exists_begun (hs : s.pending = none) (ops : List Operation)
    (h : (s.run ops).isApplying = true) : ∃ text before, Begun s ops text before := by
  induction ops using List.reverseRecOn with
  | nil =>
    have hfree : (s.run []).isApplying = false := isApplying_eq_false_iff.2 hs
    rw [hfree] at h
    cases h
  | append_singleton ops op ih =>
    have hrun : s.run (ops ++ [op]) = ((s.run ops).step op).2 := run_append s ops [op]
    rw [hrun] at h
    cases hfinal : op.isFinal with
    | true =>
      rw [isApplying_eq_false_iff.2 (pending_step_of_final hfinal)] at h
      cases h
    | false =>
      cases hbefore : (s.run ops).isApplying with
      | true =>
        obtain ⟨text, before, n, during, rfl, hfree, hduring⟩ := ih hbefore
        refine ⟨text, before, n, during ++ [op], by simp, hfree, fun o ho => ?_⟩
        rcases List.mem_append.1 ho with ho | ho
        · exact hduring o ho
        · exact List.mem_singleton.1 ho ▸ hfinal
      | false =>
        have hfree := isApplying_eq_false_iff.1 hbefore
        by_cases hop : ∃ text n, op = .beginApply text n
        · obtain ⟨text, n, rfl⟩ := hop
          exact ⟨text, ops, n, [], rfl, hfree, fun _ ho => nomatch ho⟩
        · have hnone := pending_step_of_free hfree fun text n he => hop ⟨text, n, he⟩
          rw [isApplying_eq_false_iff.2 hnone] at h
          cases h

/-! ## The law of a session -/

/-- **Law of one operation** after the operations `ops` on the session `first`. -/
structure Lawful (first : Session) (ops : List Operation) (op : Operation) : Prop where
  /-- What is refused changes nothing. -/
  refused : ∀ e, ((first.run ops).step op).1 = .error e →
    (op = .commitApply → (first.run ops).isApplying = false) →
      ((first.run ops).step op).2 = first.run ops
  /-- A text that cannot be taken over goes, and the text that was there when it was begun comes
  back. -/
  failed : ∀ e, ((first.run ops).step .commitApply).1 = .error e →
    (first.run ops).isApplying = true → ∃ text before, Begun first ops text before ∧
      ((first.run ops).step .commitApply).2 =
        { first.run ops with text := (first.run before).text, pending := none }
  /-- While a text is shown, only taking it over changes more than what is shown. -/
  locked : (first.run ops).isApplying = true → op ≠ .commitApply →
    Kept (first.run ops) ((first.run ops).step op).2
  /-- Otherwise only an edit or a text changes the graph, if it succeeds. -/
  graph : (first.run ops).isApplying = false →
    ((first.run ops).step op).2.graph ≠ (first.run ops).graph →
      ((first.run ops).step op).1 = .ok () ∧
        ((∃ edit time, op = .editGraph edit time) ∨ ∃ text, op = .applyText text)
  /-- Only a text changes the warnings. -/
  warnings : (first.run ops).isApplying = false →
    ((first.run ops).step op).2.warnings ≠ (first.run ops).warnings →
      ((first.run ops).step op).1 = .ok () ∧ ∃ text, op = .applyText text
  /-- Only other settings change the settings. -/
  settings : (first.run ops).isApplying = false →
    ((first.run ops).step op).2.settings ≠ (first.run ops).settings →
      ((first.run ops).step op).1 = .ok () ∧ ∃ settings time, op = .updateSettings settings time

/-- **Sessions obey their law** from their start on, whatever is done with them. -/
theorem lawful_step (graph : Graph) (settings : Settings) (time : String) (ops : List Operation)
    (op : Operation) : Lawful (start graph settings time) ops op := by
  have hstart : (start graph settings time).pending = none := rfl
  generalize start graph settings time = first at hstart
  constructor
  · intro e he hcommit
    rcases error_cases he with hsame | ⟨p, hp, hop, -⟩
    · exact hsame
    · rw [isApplying_eq_false_iff.1 (hcommit hop)] at hp
      cases hp
  · intro e he happlying
    obtain ⟨text, before, hbegun⟩ := exists_begun hstart ops happlying
    obtain ⟨p, hp, -, hprevious⟩ := hbegun.showing.pending
    refine ⟨text, before, hbegun, ?_⟩
    rcases error_cases he with hsame | ⟨q, hq, -, hback⟩
    · have hnone : ((first.run ops).step .commitApply).2.pending = none := pending_step_of_final rfl
      rw [hsame, hp] at hnone
      cases hnone
    · rw [hp] at hq
      cases hq
      rw [hback, hprevious]
  · exact fun happlying hop => kept_of_applying happlying hop
  · intro hfree hne
    rcases step_of_free hfree op with hkept | ⟨settings, time, -, he⟩ | ⟨edit, time, hop, he⟩ |
      ⟨text, a, hop, he⟩
    · exact absurd hkept.graph hne
    · rw [he] at hne
      exact absurd rfl hne
    · rw [he]
      exact ⟨rfl, .inl ⟨edit, time, hop⟩⟩
    · rw [he]
      exact ⟨rfl, .inr ⟨text, hop⟩⟩
  · intro hfree hne
    rcases step_of_free hfree op with hkept | ⟨settings, time, -, he⟩ | ⟨edit, time, -, he⟩ |
      ⟨text, a, hop, he⟩
    · exact absurd hkept.warnings hne
    · rw [he] at hne
      exact absurd rfl hne
    · rw [he] at hne
      exact absurd rfl hne
    · rw [he]
      exact ⟨rfl, text, hop⟩
  · intro hfree hne
    rcases step_of_free hfree op with hkept | ⟨settings, time, hop, he⟩ | ⟨edit, time, -, he⟩ |
      ⟨text, a, -, he⟩
    · exact absurd hkept.settings hne
    · rw [he]
      exact ⟨rfl, settings, time, hop⟩
    · rw [he] at hne
      exact absurd rfl hne
    · rw [he] at hne
      exact absurd rfl hne

/-- A second apply is refused while a text is shown; the text then cannot be taken over, and the
generated one comes back. -/
example :
    let first := start {} {} "T"
    let ops : List Operation := [.beginApply "CREATE TABLE (" 4, .nextChunk]
    ((first.run ops).step (.applyText "x")).1 matches .error .inProgress ∧
      (first.run ops).text = "CREA" ∧
      ((first.run ops).step .commitApply).1 matches .error _ ∧
      ((first.run ops).step .commitApply).2 = first := by
  decide +kernel

end DdlGraph.Session
