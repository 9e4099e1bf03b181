import DdlGraph.Check.Survey
import DdlGraph.Ddl.Script
import DdlGraph.Recovery.Outcome
import DdlGraph.Repair.Normalize
import DdlGraph.Text.Offset

/-!
# Sessions

A graph and its text, kept in step. A text becomes the graph in one step, or it is first shown
piece by piece and then taken over or dropped; until then nothing else may change.

* `nextChunk_eq_none_iff`: a piece is shown unless the whole text is;
* `cancel_begin`: dropping a text right away gives back the session.
-/

namespace DdlGraph

/-- Why an operation is refused. -/
inductive SessionError where
  | invalid (report : Check.Report)
  | unreadable (failure : Recovery.Failure)
  | inProgress
  | notApplying
  | editing

def SessionError.message : SessionError → String
  | .invalid report => "SQL validation failed: " ++ Text.join "; " report.blocking
  | .unreadable failure => failure.message
  | .inProgress => "Another SQL apply is already in progress"
  | .notApplying => "No SQL apply is in progress"
  | .editing => "The graph cannot be edited while SQL is being applied"

/-- A text that is being shown. -/
@[ext]
structure PendingApply where
  target : String
  previousText : String
  /-- The bytes of the target that are shown. -/
  revealed : Nat
  chunkSize : Nat
  onBoundary : Text.IsBoundary target revealed
deriving DecidableEq

namespace PendingApply

def isComplete (p : PendingApply) : Bool :=
  decide (p.target.utf8ByteSize ≤ p.revealed)

/-- The characters that are not shown yet. -/
def hidden (p : PendingApply) : List Char :=
  (Text.sliceFrom p.target p.revealed p.onBoundary).toList

/-- The bytes that are shown after the next piece, which has `chunkSize` characters or fewer at the
end of the text. -/
def revealedNext (p : PendingApply) : Nat :=
  Text.offsetAfter p.target p.revealed p.onBoundary p.chunkSize

theorem onBoundary_revealedNext (p : PendingApply) : Text.IsBoundary p.target p.revealedNext :=
  Text.isBoundary_offsetAfter p.onBoundary p.chunkSize

theorem revealed_le_revealedNext (p : PendingApply) : p.revealed ≤ p.revealedNext :=
  Text.le_offsetAfter p.onBoundary p.chunkSize

/-- **The next piece**, and what is pending after it. -/
def advance (p : PendingApply) : Option (String × PendingApply) :=
  if p.isComplete then none
  else
    some (Text.slice p.target p.revealed p.revealedNext p.onBoundary p.onBoundary_revealedNext
        p.revealed_le_revealedNext,
      { p with revealed := p.revealedNext, onBoundary := p.onBoundary_revealedNext })

/-- Only the offset moves. -/
theorem advance_eq_some {p q : PendingApply} {chunk : String} (h : p.advance = some (chunk, q)) :
    q.target = p.target ∧ q.previousText = p.previousText ∧ q.chunkSize = p.chunkSize := by
  unfold advance at h
  split at h
  · cases h
  · cases h
    exact ⟨rfl, rfl, rfl⟩

theorem advance_eq_none_iff {p : PendingApply} : p.advance = none ↔ p.hidden = [] := by
  unfold advance isComplete hidden
  rw [String.toList_eq_nil_iff, Text.sliceFrom_eq_empty_iff]
  by_cases h : p.target.utf8ByteSize ≤ p.revealed <;> simp [h]

end PendingApply

structure Session where
  graph : Graph := {}
  settings : Settings := {}
  text : String := ""
  warnings : List String := []
  pending : Option PendingApply := none
deriving DecidableEq

/-- What a text becomes. -/
structure Applied where
  graph : Graph
  text : String
  warnings : List String
deriving DecidableEq

/-- **A text for a graph**: repaired, checked and read. -/
def Applied.ofText (previous : Graph) (text : String) : Except SessionError Applied :=
  let normal := Repair.normalize text
  let report := Check.check normal
  if report.isValid then
    match Recovery.recover normal (some previous) with
    | .ok outcome =>
      .ok ⟨outcome.graph, normal, report.warnings.map Check.Finding.render ++ outcome.warnings⟩
    | .error failure => .error (.unreadable failure)
  else .error (.invalid report)

namespace Session

def isApplying (s : Session) : Bool :=
  s.pending.isSome

/-- The text of the graph, at a time. -/
def regenerate (s : Session) (time : String) : Session :=
  { s with text := Ddl.script s.settings time s.graph }

/-- A session with the text of its graph. -/
def start (graph : Graph) (settings : Settings) (time : String) : Session :=
  { graph, settings : Session }.regenerate time

/-- Other settings, and the text under them. -/
def updateSettings (s : Session) (settings : Settings) (time : String) :
    Except SessionError Session :=
  if s.isApplying then .error .editing
  else .ok ({ s with settings }.regenerate time)

/-- An edited graph, and its text. -/
def editGraph (s : Session) (edit : Graph → Graph) (time : String) : Except SessionError Session :=
  if s.isApplying then .error .editing
  else .ok ({ s with graph := edit s.graph }.regenerate time)

/-- The session after a text was taken over. -/
def commitWith (s : Session) (a : Applied) : Session :=
  { s with graph := a.graph, text := a.text, warnings := a.warnings }

/-- **A whole text in one step.** -/
def applyText (s : Session) (text : String) : Except SessionError Session :=
  if s.isApplying then .error .inProgress
  else (Applied.ofText s.graph text).map s.commitWith

/-- **Begins to show a text**, `chunkSize` characters at a time but at least one. -/
def beginApply (s : Session) (text : String) (chunkSize : Nat) : Except SessionError Session :=
  if s.isApplying then .error .inProgress
  else .ok { s with
    text := ""
    pending := some ⟨text, s.text, 0, max chunkSize 1, Text.isBoundary_zero text⟩ }

/-- **Shows the next piece**, none once the whole text is shown. -/
def nextChunk (s : Session) : Except SessionError (Option String × Session) :=
  match s.pending with
  | none => .error .notApplying
  | some p => match p.advance with
    | none => .ok (none, s)
    | some (chunk, p) => .ok (some chunk, { s with text := s.text ++ chunk, pending := some p })

/-- All pieces that are left, at most `n`. -/
def drain (s : Session) : Nat → Except SessionError (List String × Session)
  | 0 => .ok ([], s)
  | n + 1 => do
    match ← s.nextChunk with
    | (none, s) => return ([], s)
    | (some chunk, s) =>
      let (chunks, s) ← s.drain n
      return (chunk :: chunks, s)

/-- **Drops the text** that is being shown. -/
def cancelApply (s : Session) : Except SessionError Session :=
  match s.pending with
  | none => .error .notApplying
  | some p => .ok { s with text := p.previousText, pending := none }

/-- **Takes over the text** that is being shown, all of it. If that fails, the text before comes
back. The session is part of the answer either way. -/
def commitApply (s : Session) : Except SessionError Unit × Session :=
  match s.pending with
  | none => (.error .notApplying, s)
  | some p => match Applied.ofText s.graph p.target with
    | .ok a => (.ok (), { s with pending := none }.commitWith a)
    | .error e => (.error e, { s with text := p.previousText, pending := none })

/-! ## Histories -/

/-- What can be done with a session; `time` is that of the text it makes. -/
inductive Operation where
  | regenerate (time : String)
  | updateSettings (settings : Settings) (time : String)
  | editGraph (edit : Graph → Graph) (time : String)
  | applyText (text : String)
  | beginApply (text : String) (chunkSize : Nat)
  | nextChunk
  | cancelApply
  | commitApply

/-- The session after an operation that may be refused. -/
def after (s : Session) : Except SessionError Session → Except SessionError Unit × Session
  | .ok s' => (.ok (), s')
  | .error e => (.error e, s)

/-- **One operation**: whether it is refused, and the session after it. -/
def step (s : Session) : Operation → Except SessionError Unit × Session
  | .regenerate time => (.ok (), s.regenerate time)
  | .updateSettings settings time => s.after (s.updateSettings settings time)
  | .editGraph edit time => s.after (s.editGraph edit time)
  | .applyText text => s.after (s.applyText text)
  | .beginApply text chunkSize => s.after (s.beginApply text chunkSize)
  | .nextChunk => s.after (s.nextChunk.map (·.2))
  | .cancelApply => s.after s.cancelApply
  | .commitApply => s.commitApply

/-- The session after operations. -/
def run (s : Session) (ops : List Operation) : Session :=
  ops.foldl (fun s op => (s.step op).2) s

/-! ## Showing a text -/

theorem nextChunk_eq_none_iff {s : Session} {p : PendingApply} (h : s.pending = some p) :
    s.nextChunk = .ok (none, s) ↔ p.hidden = [] := by
  rw [← PendingApply.advance_eq_none_iff]
  unfold nextChunk
  rw [h]
  cases hp : p.advance with
  | none => simp [hp]
  | some r => simp [hp]

theorem cancel_begin {s s' : Session} {text : String} {n : Nat} (hs : s.pending = none)
    (h : s.beginApply text n = .ok s') : s'.cancelApply = .ok s := by
  unfold beginApply at h
  simp only [isApplying, hs, Option.isSome_none, Bool.false_eq_true, if_false, Except.ok.injEq] at h
  subst h
  cases s
  simp_all [cancelApply]

end Session

end DdlGraph
