import DdlGraph.Check.Survey
import DdlGraph.Ddl.Script
import DdlGraph.Graph.Json
import DdlGraph.Recovery.Outcome
import DdlGraph.Settings
import DdlGraph.Text.Letter
import DdlGraph.Text.Trim

/-!
# Exchange as text

The operations for a caller that holds graphs, settings and reports as JSON text.
-/

namespace DdlGraph

open Json (record text)

/-! ## Encoding -/

def Check.Finding.toJson (f : Check.Finding) : Json :=
  record [("severity", text (if f.isWarning then "warning" else "error")),
    ("line", .ofOption .natural f.line), ("message", text f.problem.message)]

def Check.Report.toJson (r : Check.Report) : Json :=
  record [("isValid", .bool r.isValid), ("findings", .ofList Check.Finding.toJson r.findings)]

def Recovery.Outcome.toJson (o : Recovery.Outcome) : Json :=
  record [("graph", o.graph.toJson), ("warnings", .ofList text o.warnings)]

namespace Exchange

/-- Why an operation gives no text. -/
inductive Failure where
  /-- A text is no JSON, or not that of what it should hold. -/
  | invalidJson
  | unreadable (cause : Recovery.Failure)

/-- The value that a JSON text describes. -/
def decode {α : Type} (ofJson? : Json → Option α) (s : String) : Except Failure α :=
  match (Json.read? s).bind ofJson? with
  | some a => .ok a
  | none => .error .invalidJson

/-- The same for a text that may be missing or blank. -/
def decodeOptional {α : Type} (ofJson? : Json → Option α) : Option String → Except Failure (Option α)
  | some s => if Text.isBlankText s then .ok none else (decode ofJson? s).map some
  | none => .ok none

/-- **Text of a graph**, at a time. -/
def script (graph : String) (settings : Option String) (time : String) : Except Failure String := do
  let g ← decode Graph.ofJson? graph
  let s ← decodeOptional Settings.ofJson? settings
  return Ddl.script (s.getD {}) time g

/-- **Graph of a text**, with what the text holds besides. -/
def recover (sql : String) (previous : Option String) : Except Failure String := do
  let p ← decodeOptional Graph.ofJson? previous
  match Recovery.recover sql p with
  | .ok outcome => return outcome.toJson.compact
  | .error cause => throw (.unreadable cause)

/-- **Report on a text.** -/
def check (sql : String) : String :=
  (Check.check sql).toJson.compact

end Exchange

end DdlGraph
