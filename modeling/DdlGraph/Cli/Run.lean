import DdlGraph.Check.Survey
import DdlGraph.Cli.Arguments
import DdlGraph.Ddl.Script
import DdlGraph.Graph.Json
import DdlGraph.Recovery.Outcome
import DdlGraph.Repair.Normalize

/-!
# Running commands

What each command reads, prints and writes. Files and the clock come from a host, so that a command
can be run on a real system or on files in memory.
-/

namespace DdlGraph.Cli

/-- Files and a clock. A file that cannot be read or written gives the reason. -/
structure Host (m : Type → Type) where
  read : String → m (Except String String)
  write : String → String → m (Except String Unit)
  now : m String

/-- Why a command fails. -/
inductive Failure where
  | unreadable (path reason : String)
  | invalidJson (path : String)
  | unparsable (path : String) (cause : Recovery.Failure)
  | invalidSql (path : String)
  | unwritable (path reason : String)

namespace Failure

/-- What failed. -/
def summary : Failure → String
  | .unreadable path _ => "Failed to read " ++ path
  | .invalidJson path => "Invalid JSON in " ++ path
  | .unparsable path _ => "Failed to parse " ++ path
  | .invalidSql path => path ++ " is not valid"
  | .unwritable path _ => "Failed to write " ++ path

/-- Why it failed, where that is told. -/
def cause? : Failure → Option String
  | .unreadable _ reason | .unwritable _ reason => some reason
  | .unparsable _ cause => some cause.message
  | _ => none

/-- The cause with blanks before each line. -/
def indented (cause : String) : String :=
  .ofList (cause.toList.flatMap fun c => if c = '\n' then "\n    ".toList else [c])

/-- The failure as it is printed. -/
def report (f : Failure) : String :=
  "Error: " ++ f.summary ++ "\n" ++
    match f.cause? with
    | some cause => "\nCaused by:\n    " ++ indented cause ++ "\n"
    | none => ""

end Failure

/-- What a command leaves: its exit code and what it prints. -/
structure Output where
  exit : Nat := 0
  stdout : String := ""
  stderr : String := ""
deriving DecidableEq

namespace Output

/-- The output ends with a failure. -/
def failed (o : Output) (f : Failure) : Output :=
  { o with exit := 1, stderr := o.stderr ++ f.report }

end Output

variable {m : Type → Type} [Monad m]

/-- Goes on with what was read, or fails. -/
def withText (host : Host m) (path : String) (k : String → m Output) : m Output := do
  match ← host.read path with
  | .ok text => k text
  | .error reason => return Output.failed {} (.unreadable path reason)

/-- Goes on with the value of a JSON file, or fails. -/
def withJson {α : Type} (host : Host m) (decode : Json → Option α) (path : String)
    (k : α → m Output) : m Output :=
  withText host path fun text =>
    match (Json.read? text).bind decode with
    | some a => k a
    | none => return Output.failed {} (.invalidJson path)

/-- The same for a file that need not be given. -/
def withOptionalJson {α : Type} (host : Host m) (decode : Json → Option α) (path : Option String)
    (k : Option α → m Output) : m Output :=
  match path with
  | some path => withJson host decode path fun a => k (some a)
  | none => k none

/-- Writes a text to a file or prints it. -/
def emit (host : Host m) (path : Option String) (o : Output) (text : String) : m Output :=
  match path with
  | none => return { o with stdout := o.stdout ++ text }
  | some path => do
    match ← host.write path text with
    | .ok () => return o
    | .error reason => return o.failed (.unwritable path reason)

/-- Lines, each with its line break. -/
def lines (texts : List String) : String :=
  Text.join "" (texts.map (· ++ "\n"))

/-- **Runs a command.** -/
def Command.run (host : Host m) : Command → m Output
  | .version => return { stdout := "schemasync 0.1.0\n" }
  | .generate graph dialect inlineKeys caseInsensitive config timestamp output =>
    withJson host Graph.ofJson? graph fun g =>
      withOptionalJson host Settings.ofJson? config fun settings => do
        let settings := settings.getD {}
        let settings := { settings with
          dialect := dialect.getD settings.dialect
          inlineConstraints := settings.inlineConstraints || inlineKeys
          caseSensitive := settings.caseSensitive && !caseInsensitive }
        let time ← match timestamp with
          | some time => pure time
          | none => host.now
        emit host output {} (Ddl.script settings time g)
  | .parse sql previous output =>
    withText host sql fun text =>
      withOptionalJson host Graph.ofJson? previous fun previous =>
        match Recovery.recover text previous with
        | .error cause => return Output.failed {} (.unparsable sql cause)
        | .ok outcome =>
          emit host output { stderr := lines (outcome.warnings.map ("warning: " ++ ·)) }
            outcome.graph.toJson.pretty
  | .validate sql =>
    withText host sql fun text =>
      let report := Check.check text
      let found := lines (report.findings.map Check.Finding.render)
      return if report.isValid then { stdout := found ++ sql ++ " is valid\n" }
        else Output.failed { stdout := found } (.invalidSql sql)
  | .normalize sql output =>
    withText host sql fun text => emit host output {} (Repair.normalize text)

/-- **Runs the program.** -/
def run (host : Host m) (args : List String) : m Output :=
  match Command.ofArguments? args with
  | some command => command.run host
  | none => return { exit := 2, stderr := usage }

end DdlGraph.Cli
