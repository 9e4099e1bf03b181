import DdlGraph.Session

/-!
# The text that stands for the graph

While a new text is shown, the text from before still stands for the graph (`standingText`). It is
always one of two things: the text that the graph is written as, or a text in normal form that was
checked and read after a graph of the past, with the warnings of both (`InStep`).

* `step_cases`: an operation leaves what stands, writes the graph anew or takes a text over
  (`Moves`);
* `InStep.step`: so one operation keeps text and graph in step;
* `inStep_run`: and they are so after every history.
-/

namespace DdlGraph.Session

variable {s s' : Session} {earlier : List Graph}

/-! ## Two kinds of texts -/

/-- **Standing text**: the one that is shown, or the one from before while a new one is shown. -/
def standingText (s : Session) : String :=
  match s.pending with
  | some p => p.previousText
  | none => s.text

/-- The graph is written as the standing text, with some time in its header. -/
def Written (s : Session) : Prop :=
  ∃ time, s.standingText = Ddl.script s.settings time s.graph

/-- **Taken over**: a text was brought into normal form, and it passed the check and was read after
the graph `before`. The warnings are those of the check and then those of the reading. -/
def TakenOver (before : Graph) (s : Session) : Prop :=
  ∃ text o, s.standingText = Repair.normalize text ∧
    (Check.check s.standingText).isValid = true ∧
    Recovery.recover s.standingText (some before) = .ok o ∧ o.graph = s.graph ∧
    s.warnings = (Check.check s.standingText).warnings.map Check.Finding.render ++ o.warnings

/-- **In step**: the text is written for the graph, or it was taken over after an earlier one. -/
def InStep (earlier : List Graph) (s : Session) : Prop :=
  s.Written ∨ ∃ before ∈ earlier, s.TakenOver before

/-- The session stands as before; only what is shown may differ. -/
structure Unmoved (s s' : Session) : Prop where
  graph : s'.graph = s.graph
  settings : s'.settings = s.settings
  warnings : s'.warnings = s.warnings
  text : s'.standingText = s.standingText

theorem Unmoved.refl (s : Session) : Unmoved s s :=
  ⟨rfl, rfl, rfl, rfl⟩

theorem Unmoved.inStep (h : Unmoved s s') (hs : s.InStep earlier) : s'.InStep earlier := by
  obtain ⟨hgraph, hsettings, hwarnings, htext⟩ := h
  unfold InStep Written TakenOver at hs ⊢
  rw [hgraph, hsettings, hwarnings, htext]
  exact hs

/-! ## One operation -/

theorem standingText_of_not_applying (h : s.isApplying = false) : s.standingText = s.text := by
  have hnone : s.pending = none := by
    unfold isApplying at h
    exact Option.isNone_iff_eq_none.1 (by simpa using h)
  unfold standingText
  rw [hnone]

theorem standingText_of_pending {p : PendingApply} (h : s.pending = some p) :
    s.standingText = p.previousText := by
  unfold standingText
  rw [h]

/-- A text that is written for the graph stands for it, unless another one is shown. -/
theorem written_regenerate (h : s.isApplying = false) (time : String) :
    (s.regenerate time).Written :=
  ⟨time, standingText_of_not_applying h⟩

/-- What a text becomes: its normal form, which is valid and is read. -/
theorem Applied.of_ofText {before : Graph} {text : String} {a : Applied}
    (h : Applied.ofText before text = .ok a) :
    a.text = Repair.normalize text ∧ (Check.check a.text).isValid = true ∧
      ∃ o, Recovery.recover a.text (some before) = .ok o ∧ a.graph = o.graph ∧
        a.warnings = (Check.check a.text).warnings.map Check.Finding.render ++ o.warnings := by
  unfold Applied.ofText at h
  dsimp only at h
  split at h
  · rename_i hvalid
    split at h
    · rename_i o ho
      cases h
      exact ⟨rfl, hvalid, o, ho, rfl, rfl⟩
    · cases h
  · cases h

theorem takenOver_commitWith {before : Graph} {text : String} {a : Applied}
    (h : Applied.ofText before text = .ok a) (hs : s.isApplying = false) :
    (s.commitWith a).TakenOver before := by
  obtain ⟨htext, hvalid, o, ho, hgraph, hwarnings⟩ := Applied.of_ofText h
  have hstands : (s.commitWith a).standingText = a.text :=
    standingText_of_not_applying (s := s.commitWith a) hs
  refine ⟨text, o, ?_⟩
  rw [hstands]
  exact ⟨htext, hvalid, ho, hgraph.symm, hwarnings⟩

theorem unmoved_beginApply {text : String} {n : Nat} (h : s.beginApply text n = .ok s') :
    Unmoved s s' := by
  unfold beginApply at h
  split at h
  · cases h
  · rename_i hs
    cases h
    have hfree : s.isApplying = false := Bool.eq_false_iff.2 hs
    exact ⟨rfl, rfl, rfl, (standingText_of_not_applying hfree).symm⟩

theorem unmoved_nextChunk {r : Option String × Session} (h : s.nextChunk = .ok r) :
    Unmoved s r.2 := by
  unfold nextChunk at h
  split at h
  · cases h
  · rename_i p hp
    cases hadvance : p.advance with
    | none =>
      simp only [hadvance] at h
      cases h
      exact .refl s
    | some next =>
      obtain ⟨chunk, q⟩ := next
      obtain ⟨-, hprevious, -⟩ := PendingApply.advance_eq_some hadvance
      simp only [hadvance] at h
      cases h
      refine ⟨rfl, rfl, rfl, ?_⟩
      rw [standingText_of_pending hp, ← hprevious]
      rfl

theorem unmoved_cancelApply (h : s.cancelApply = .ok s') : Unmoved s s' := by
  unfold cancelApply at h
  split at h
  · cases h
  · rename_i p hp
    cases h
    exact ⟨rfl, rfl, rfl, (standingText_of_pending hp).symm⟩

/-- A text that is taken over replaces what stood, and one that fails puts it back. -/
theorem commitApply_cases (s : Session) :
    Unmoved s s.commitApply.2 ∨ s.commitApply.2.TakenOver s.graph := by
  unfold commitApply
  split
  · exact .inl (.refl s)
  · rename_i p hp
    split
    · rename_i a ha
      exact .inr (takenOver_commitWith (s := { s with pending := none }) ha rfl)
    · exact .inl ⟨rfl, rfl, rfl, (standingText_of_pending hp).symm⟩

/-- **What an operation can do**: leave what stands, write the graph anew, or take a text over. -/
def Moves (s s' : Session) : Prop :=
  Unmoved s s' ∨ s'.Written ∨ s'.TakenOver s.graph

/-- An operation that is refused leaves what stands. -/
theorem Moves.after {r : Except SessionError Session} (h : ∀ s', r = .ok s' → Moves s s') :
    Moves s (s.after r).2 := by
  cases r with
  | ok s' => exact h s' rfl
  | error e => exact .inl (.refl s)

theorem step_cases (s : Session) (op : Operation) : Moves s (s.step op).2 := by
  cases op with
  | regenerate time =>
    cases hs : s.isApplying with
    | false => exact .inr (.inl (written_regenerate hs time))
    | true =>
      obtain ⟨p, hp⟩ := Option.isSome_iff_exists.1 hs
      have hsame := standingText_of_pending (s := s.regenerate time) hp
      exact .inl ⟨rfl, rfl, rfl, hsame.trans (standingText_of_pending hp).symm⟩
  | updateSettings settings time =>
    refine Moves.after fun s' h => .inr (.inl ?_)
    unfold updateSettings at h
    split at h
    · cases h
    · rename_i hs
      cases h
      exact written_regenerate (s := { s with settings }) (Bool.eq_false_iff.2 hs) time
  | editGraph edit time =>
    refine Moves.after fun s' h => .inr (.inl ?_)
    unfold editGraph at h
    split at h
    · cases h
    · rename_i hs
      cases h
      exact written_regenerate (s := { s with graph := edit s.graph }) (Bool.eq_false_iff.2 hs) time
  | applyText text =>
    refine Moves.after fun s' h => .inr (.inr ?_)
    unfold applyText at h
    split at h
    · cases h
    · rename_i hs
      cases ha : Applied.ofText s.graph text with
      | error e =>
        rw [ha] at h
        cases h
      | ok a =>
        rw [ha] at h
        cases h
        exact takenOver_commitWith ha (Bool.eq_false_iff.2 hs)
  | beginApply text n => exact Moves.after fun s' h => .inl (unmoved_beginApply h)
  | nextChunk =>
    refine Moves.after fun s' h => .inl ?_
    cases hr : s.nextChunk with
    | error e =>
      rw [hr] at h
      cases h
    | ok r =>
      rw [hr] at h
      cases h
      exact unmoved_nextChunk hr
  | cancelApply => exact Moves.after fun s' h => .inl (unmoved_cancelApply h)
  | commitApply => exact (commitApply_cases s).imp_right .inr

/-- **One operation keeps text and graph in step**; the graph before it is an earlier one then. -/
theorem InStep.step (h : s.InStep earlier) (op : Operation) :
    (s.step op).2.InStep (earlier ++ [s.graph]) := by
  rcases step_cases s op with hsame | hwritten | htaken
  · refine (hsame.inStep h).imp_right ?_
    rintro ⟨before, hmem, htaken⟩
    exact ⟨before, List.mem_append_left _ hmem, htaken⟩
  · exact .inl hwritten
  · exact .inr ⟨s.graph, List.mem_append_right _ (.head _), htaken⟩

/-! ## Histories -/

/-- The graph before each of the operations. -/
def graphsBefore (s : Session) : List Operation → List Graph
  | [] => []
  | op :: ops => s.graph :: (s.step op).2.graphsBefore ops

theorem InStep.run (h : s.InStep earlier) (ops : List Operation) :
    (s.run ops).InStep (earlier ++ s.graphsBefore ops) := by
  induction ops generalizing s earlier with
  | nil =>
    rw [graphsBefore, List.append_nil]
    exact h
  | cons op ops ih =>
    have hrun := ih (h.step op)
    rw [List.append_assoc] at hrun
    exact hrun

/-- **Text and graph stay in step** from the start of a session on, whatever is done with it: the
text that stands is written for the graph under the settings, or it was taken over after a graph
that the session had before. -/
theorem inStep_run (graph : Graph) (settings : Settings) (time : String) (ops : List Operation) :
    ((start graph settings time).run ops).InStep ((start graph settings time).graphsBefore ops) := by
  have hstart : (start graph settings time).InStep [] :=
    .inl (written_regenerate (s := { graph, settings }) rfl time)
  exact hstart.run ops

/-- A text is taken over after the empty graph, then another one is begun and the graph is written
while it is shown: the first text stands. -/
example :
    let s := (start {} {} "T").run [.applyText "CREATE TABLE a (b int);",
      .beginApply "CREATE TABLE c (d int);" 4, .nextChunk, .regenerate "U"]
    s.standingText = "CREATE TABLE a (b int);" ∧ s.text ≠ s.standingText := by
  decide +kernel

end DdlGraph.Session
