import DdlGraph.Session

/-!
# A text in pieces or in one step

Between `beginApply` and the operation that ends it (`Operation.isFinal`) a session is *showing* a
text (`Session.Showing`): its graph, settings and warnings are those from before, and the pending
record has the text that comes and the text that went. Only what is shown may move.

* `Showing.step`, `Showing.run`: every operation that does not end the showing keeps it;
* `Showing.cancel`, `Showing.commit`: what the two ends make of it;
* `cancel_commit_of_begin`: dropping the text gives back the session, and taking it over does what
  `applyText` does in one step.
-/

namespace DdlGraph.Session

/-- The operation ends the showing of a text. -/
def Operation.isFinal : Operation → Bool
  | .cancelApply | .commitApply => true
  | _ => false

/-- `t` is showing `text`, and was `s` before. -/
structure Showing (s : Session) (text : String) (t : Session) : Prop where
  graph : t.graph = s.graph
  settings : t.settings = s.settings
  warnings : t.warnings = s.warnings
  pending : ∃ p, t.pending = some p ∧ p.target = text ∧ p.previousText = s.text

variable {s t : Session} {text : String}

/-! ## While a text is shown -/

theorem Showing.isApplying (h : Showing s text t) : t.isApplying = true := by
  obtain ⟨p, hp, -, -⟩ := h.pending
  unfold Session.isApplying
  rw [hp]
  rfl

theorem Showing.setText (h : Showing s text t) (shown : String) :
    Showing s text { t with text := shown } :=
  ⟨h.graph, h.settings, h.warnings, h.pending⟩

theorem Showing.nextChunk (h : Showing s text t) {r : Option String × Session}
    (hr : t.nextChunk = .ok r) : Showing s text r.2 := by
  obtain ⟨p, hp, ht, hs⟩ := h.pending
  unfold Session.nextChunk at hr
  rw [hp] at hr
  cases hadvance : p.advance with
  | none =>
    simp only [hadvance] at hr
    cases hr
    exact h
  | some next =>
    obtain ⟨chunk, q⟩ := next
    obtain ⟨htarget, hprevious, -⟩ := PendingApply.advance_eq_some hadvance
    simp only [hadvance] at hr
    cases hr
    exact ⟨h.graph, h.settings, h.warnings, q, rfl, htarget.trans ht, hprevious.trans hs⟩

/-- The operations that would change more than the text are refused. -/
theorem Showing.step (h : Showing s text t) (op : Operation) (hop : op.isFinal = false) :
    Showing s text (t.step op).2 := by
  have busy := h.isApplying
  cases op with
  | regenerate time => exact h.setText _
  | updateSettings settings time =>
    simp only [Session.step, Session.updateSettings, busy, if_true, Session.after]
    exact h
  | editGraph edit time =>
    simp only [Session.step, Session.editGraph, busy, if_true, Session.after]
    exact h
  | applyText x =>
    simp only [Session.step, Session.applyText, busy, if_true, Session.after]
    exact h
  | beginApply x n =>
    simp only [Session.step, Session.beginApply, busy, if_true, Session.after]
    exact h
  | nextChunk =>
    cases hr : t.nextChunk with
    | error e => simpa [Session.step, hr, Except.map, Session.after] using h
    | ok r => simpa [Session.step, hr, Except.map, Session.after] using h.nextChunk hr
  | cancelApply => cases hop
  | commitApply => cases hop

theorem Showing.run (h : Showing s text t) (ops : List Operation)
    (hops : ∀ op ∈ ops, op.isFinal = false) : Showing s text (t.run ops) := by
  induction ops generalizing t with
  | nil => exact h
  | cons op ops ih =>
    exact ih (h.step op (hops op (.head _))) fun o ho => hops o (.tail _ ho)

/-! ## Its two ends -/

/-- A session without a pending text is the showing one with the old text put back. -/
theorem Showing.restored (h : Showing s text t) (hs : s.pending = none) :
    { t with text := s.text, pending := none } = s := by
  obtain ⟨hg, hset, hw, -⟩ := h
  cases s
  cases t
  cases hs
  cases hg
  cases hset
  cases hw
  rfl

theorem Showing.cancel (h : Showing s text t) (hs : s.pending = none) :
    t.step .cancelApply = (.ok (), s) := by
  obtain ⟨p, hp, -, hprev⟩ := h.pending
  simp only [Session.step, Session.cancelApply, hp, Session.after, hprev]
  rw [h.restored hs]

/-- Taking a text over replaces whatever is shown, so the pieces leave no trace. -/
theorem Showing.commit (h : Showing s text t) (hs : s.pending = none) :
    t.step .commitApply = s.step (.applyText text) := by
  obtain ⟨p, hp, htarget, hprev⟩ := h.pending
  have free : s.isApplying = false := by
    unfold Session.isApplying
    rw [hs]
    rfl
  have same : Applied.ofText t.graph p.target = Applied.ofText s.graph text := by
    rw [h.graph, htarget]
  simp only [Session.step, Session.commitApply, hp, same, Session.applyText, free,
    Bool.false_eq_true, if_false]
  cases Applied.ofText s.graph text with
  | ok a =>
    have : { t with pending := none }.commitWith a = s.commitWith a := by
      simp [Session.commitWith, h.settings, hs]
    simpa [Session.after, Except.map] using this
  | error e =>
    simp only [Session.after, Except.map, Prod.mk.injEq, true_and, hprev]
    exact h.restored hs

/-! ## A whole apply -/

theorem beginApply_eq (hs : s.pending = none) (text : String) (n : Nat) :
    s.step (.beginApply text n) =
      (.ok (), { s with
        text := ""
        pending := some ⟨text, s.text, 0, max n 1, Text.isBoundary_zero text⟩ }) := by
  simp [Session.step, Session.beginApply, Session.isApplying, hs, Session.after]

theorem showing_begin (hs : s.pending = none) (text : String) (n : Nat) :
    Showing s text (s.step (.beginApply text n)).2 := by
  rw [beginApply_eq hs]
  exact ⟨rfl, rfl, rfl, _, rfl, rfl, rfl⟩

/-- **A text shown in pieces** is begun, and after any operations that do not end it, dropping it
gives back the session as it was, and taking it over has the result and the session of one step. -/
theorem cancel_commit_of_begin (s : Session) (hs : s.pending = none) (text : String) (n : Nat)
    (ops : List Operation) (hops : ∀ op ∈ ops, op.isFinal = false) :
    (s.step (.beginApply text n)).1 = .ok () ∧
      ((s.step (.beginApply text n)).2.run ops).step .cancelApply = (.ok (), s) ∧
      ((s.step (.beginApply text n)).2.run ops).step .commitApply = s.step (.applyText text) := by
  have h := (showing_begin hs text n).run ops hops
  refine ⟨?_, h.cancel hs, h.commit hs⟩
  rw [beginApply_eq hs]

/-- Two pieces, a new text of the graph in between, and four operations that are refused. -/
theorem cancel_commit_of_begin_refused :
    let s : Session := { text := "-- old", warnings := ["w"] }
    let ops : List Operation := [.nextChunk, .regenerate "T", .beginApply "x" 1, .applyText "y",
      .editGraph (fun _ => {}) "T", .updateSettings { dialect := .mysql } "T", .nextChunk]
    s.pending = none ∧ (∀ op ∈ ops, op.isFinal = false) ∧
      ((s.step (.beginApply "CREATE TABLE a (b int);" 0)).2.run ops).step .cancelApply =
        (.ok (), s) ∧
      ((s.step (.beginApply "CREATE TABLE a (b int);" 0)).2.run ops).step .commitApply =
        s.step (.applyText "CREATE TABLE a (b int);") := by
  intro s ops
  have hops : ∀ op ∈ ops, op.isFinal = false := by decide
  exact ⟨rfl, hops, (cancel_commit_of_begin s rfl _ 0 ops hops).2⟩

end DdlGraph.Session
