import DdlGraph.Check.Finding
import DdlGraph.Sql.Token.Lexer
import DdlGraph.Sql.TypeName

/-!
# Checks on a text

Checks that need no more than the tokens of a text: parentheses, names of tables and columns,
commas, and the targets of foreign keys.

* `parenFindings_eq_nil_iff`: there is nothing to find exactly if the parentheses are balanced;
* `check_valid_balanced`: so a valid text is balanced.
-/

namespace DdlGraph.Check

open DdlGraph.Sql

/-! ## Parentheses -/

/-- Findings about parentheses, where `opened` has the lines of those that are open, the last one
first. -/
def parenFindings (opened : List Nat) : List Placed → List Finding
  | [] => match opened.getLast? with
    | some line => [⟨some line, .neverClosed opened.length⟩]
    | none => []
  | p :: rest => match p.token with
    | .lparen => parenFindings (p.line :: opened) rest
    | .rparen => match opened with
      | _ :: opened => parenFindings opened rest
      | [] => ⟨some p.line, .unexpectedClose⟩ :: parenFindings [] rest
    | _ => parenFindings opened rest

/-- The tokens close `depth` parentheses and all that they open. -/
def Closes : (depth : Nat) → List Token → Prop
  | 0, [] => True
  | _ + 1, [] => False
  | depth, .lparen :: rest => Closes (depth + 1) rest
  | 0, .rparen :: _ => False
  | depth + 1, .rparen :: rest => Closes depth rest
  | depth, _ :: rest => Closes depth rest

theorem parenFindings_eq_nil_iff (opened : List Nat) (ts : List Placed) :
    parenFindings opened ts = [] ↔ Closes opened.length (ts.map (·.token)) := by
  induction ts generalizing opened with
  | nil =>
    cases opened with
    | nil => simp [parenFindings, Closes]
    | cons line rest =>
      cases h : (line :: rest).getLast? with
      | none => simp at h
      | some l => simp [parenFindings, Closes, h]
  | cons p rest ih =>
    unfold parenFindings
    split
    · rename_i h
      rw [ih]
      cases opened <;> simp [List.map_cons, h, Closes]
    · rename_i h
      split
      · rw [ih]
        simp [List.map_cons, h, Closes]
      · simp [List.map_cons, h, Closes]
    · rename_i h1 h2
      rw [ih]
      simp only [List.map_cons]
      generalize p.token = t at h1 h2
      cases opened <;> cases t <;> simp_all [Closes]

/-! ## Pieces of a text -/

/-- Tokens that begin with `CREATE` create a table: `TABLE` is among the three after it. -/
def createsTable (ts : List Placed) : Bool :=
  ((ts.tail.take 3).takeWhile (·.token ≠ .semicolon)).any (·.token = .keyword .table)

/-- A table is created somewhere. -/
def createsSomeTable : List Placed → Bool
  | [] => false
  | p :: rest =>
    (p.token = .keyword .create && createsTable (p :: rest)) || createsSomeTable rest

/-- A statement, given backwards, before others; nothing if it is empty. -/
def endStatement (read : List Placed) (others : List (List Placed)) : List (List Placed) :=
  if read.isEmpty then others else read.reverse :: others

/-- The tokens of each statement: they are parted by semicolons outside of parentheses. `read` has
the statement so far, backwards. -/
def splitStatements (read : List Placed) (depth : Nat) : List Placed → List (List Placed)
  | [] => []
  | p :: rest => match p.token with
    | .lparen => splitStatements (p :: read) (depth + 1) rest
    | .rparen => splitStatements (p :: read) (depth - 1) rest
    | .semicolon =>
      if depth = 0 then endStatement read (splitStatements [] depth rest)
      else splitStatements (p :: read) depth rest
    | .endOfText => endStatement read (splitStatements [] depth rest)
    | _ => splitStatements (p :: read) depth rest

/-- The items of a list after its opening parenthesis, up to the closing one. -/
def splitItems (read : List Placed) (depth : Nat) : List Placed → List (List Placed)
  | [] => [read.reverse]
  | p :: rest => match p.token with
    | .lparen => splitItems (p :: read) (depth + 1) rest
    | .rparen => match depth with
      | 0 => [read.reverse]
      | d + 1 => splitItems (p :: read) d rest
    | .comma =>
      if depth = 0 then read.reverse :: splitItems [] 0 rest
      else splitItems (p :: read) depth rest
    | _ => splitItems (p :: read) depth rest

/-- The name that comes first. -/
def firstName? : List Placed → Option String
  | [] => none
  | p :: _ => p.token.nameText?

/-- A name in one or more parts, of which the last one counts, and what follows. -/
def qualifiedName? : List Placed → Option (String × List Placed)
  | [] => none
  | [p] => p.token.nameText?.map fun name => (name, [])
  | p :: q :: rest => do
    let name ← p.token.nameText?
    if q.token = .dot then qualifiedName? rest else some (name, q :: rest)

/-- The names up to the closing parenthesis. -/
def namesInParens : List Placed → List String
  | [] => []
  | p :: rest => match p.token with
    | .rparen => []
    | t => match t.nameText? with
      | some name => name :: namesInParens rest
      | none => namesInParens rest

/-- The name of the enumeration that a statement declares, in small letters. -/
def declaredEnum? : List Placed → Option String
  | create :: type :: name :: _ =>
    if create.token = .keyword .create ∧ type.token = .keyword .type then
      name.token.nameText?.map Text.lower
    else none
  | _ => none

/-! ## Tables and references -/

/-- What a foreign key refers to. -/
structure Target where
  line : Nat
  table : String
  column : String
deriving DecidableEq

/-- What is known of a text so far. -/
structure Survey where
  /-- The names of columns for each table, all in small letters. -/
  tables : List (String × List String) := []
  targets : List Target := []
  findings : List Finding := []

namespace Survey

def report (s : Survey) (line : Nat) (problem : Problem) : Survey :=
  { s with findings := s.findings ++ [⟨some line, problem⟩] }

/-- The column that a reference names, after the table. -/
def targetColumn : List Placed → String
  | ⟨.lparen, _⟩ :: rest => (namesInParens rest).headD "id"
  | _ => "id"

/-- Notes the target of the first `REFERENCES`. -/
def noteTarget (s : Survey) : List Placed → Survey
  | [] => s
  | p :: rest =>
    if p.token = .keyword .references then
      match qualifiedName? rest with
      | some (table, rest) =>
        { s with targets := s.targets ++ [⟨p.line, table, targetColumn rest⟩] }
      | none => s.report p.line .missingTarget
    else noteTarget s rest

/-- The same for tokens that state a foreign key. -/
def noteKeyTarget (s : Survey) (ts : List Placed) : Survey :=
  if ts.any (·.token = .keyword .foreign) then s.noteTarget ts else s

/-- The first of the tokens is a word that names a type. -/
def isTypeNext (enums : List String) : List Placed → Bool
  | [] => false
  | p :: _ => match p.token with
    | .ident word => isKnownType word || enums.contains (Text.lower word)
    | _ => false

/-- Where columns begin that no comma parts from what is before: a name on a new line with a type
after it. `last` is the line of the token before. -/
def missingCommas (enums : List String) (depth last : Nat) : List Placed → List (List Placed)
  | [] => []
  | p :: rest =>
    let here := decide (depth = 0) && decide (last < p.line) && isTypeNext enums rest
    match p.token with
    | .lparen => missingCommas enums (depth + 1) p.line rest
    | .rparen => missingCommas enums (depth - 1) p.line rest
    | .ident word =>
      if !continuesType word && here then (p :: rest) :: missingCommas enums depth p.line rest
      else missingCommas enums depth p.line rest
    | .quotedIdent _ =>
      if here then (p :: rest) :: missingCommas enums depth p.line rest
      else missingCommas enums depth p.line rest
    | _ => missingCommas enums depth p.line rest

/-- Notes the column that begins here. A second one of that name is an error. -/
def noteColumn (table : String) (r : Survey × List String) (start : List Placed) :
    Survey × List String :=
  match start with
  | [] => r
  | p :: _ => match p.token.nameText? with
    | none => r
    | some name =>
      if r.2.contains (Text.lower name) then
        (r.1.report p.line (.duplicateColumn name table), r.2)
      else (r.1, Text.lower name :: r.2)

/-- The error of a column that no comma parts from what is before. -/
def reportComma (table : String) (s : Survey) (start : List Placed) : Survey :=
  match start with
  | [] => s
  | p :: _ => s.report p.line (.missingComma (p.token.nameText?.getD "") table)

/-- Words that begin an item which is no column. -/
def isConstraintWord : Token → Bool
  | .keyword k =>
    k ∈ [.constraint, .primary, .unique, .check, .key, .index, .foreign]
  | _ => false

/-- **One item** of a table; with the survey go the columns of the table so far. -/
def item (enums : List String) (table : String) (r : Survey × List String) (ts : List Placed) :
    Survey × List String :=
  match ts with
  | [] => r
  | p :: rest =>
    if isConstraintWord p.token then (r.1.noteKeyTarget ts, r.2)
    else
      let starts := missingCommas enums 0 p.line rest
      let s := starts.foldl (reportComma table) r.1
      let r := (ts :: starts).foldl (noteColumn table) (s, r.2)
      (r.1.noteTarget ts, r.2)

/-- What follows the first `TABLE` of a statement, and `IF NOT EXISTS` after it. -/
def afterTable (ts : List Placed) : List Placed :=
  let rest := (ts.dropWhile (·.token ≠ .keyword .table)).tail
  match rest with
  | p :: _ => if p.token = .keyword .if then rest.drop 3 else rest
  | [] => []

/-- **A statement that creates a table**, which begins on `line`. -/
def table (enums : List String) (line : Nat) (s : Survey) (ts : List Placed) : Survey :=
  match qualifiedName? (afterTable ts) with
  | none => s.report line .missingTableName
  | some (name, ⟨.lparen, _⟩ :: body) =>
    if (s.tables.lookup (Text.lower name)).isSome then s.report line (.duplicateTable name)
    else
      let r := (splitItems [] 0 body).foldl (item enums name) (s, [])
      { r.1 with tables := r.1.tables ++ [(Text.lower name, r.2)] }
  | some (name, _) => s.report line (.missingColumnList name)

/-- One statement. -/
def statement (enums : List String) (s : Survey) (ts : List Placed) : Survey :=
  match ts with
  | [] => s
  | p :: _ =>
    if p.token = .keyword .create ∧ createsTable ts then s.table enums p.line ts
    else if p.token = .keyword .alter then s.noteKeyTarget ts
    else s

/-- What is wrong with a target. The column `id` is taken to be in every table. -/
def targetFinding? (s : Survey) (t : Target) : Option Finding :=
  if Text.sameAscii t.column "id" then none
  else match s.tables.lookup (Text.lower t.table) with
    | none => some ⟨some t.line, .undefinedTable t.table⟩
    | some columns =>
      if columns.contains (Text.lower t.column) then none
      else some ⟨some t.line, .undefinedColumn t.column t.table⟩

end Survey

/-- The findings for the tokens of a text. -/
def checkTokens (ts : List Placed) : List Finding :=
  let statements := splitStatements [] 0 ts
  let enums := statements.filterMap declaredEnum?
  let s := statements.foldl (Survey.statement enums) {}
  (if createsSomeTable ts then [] else [⟨none, .noTable⟩]) ++ parenFindings [] ts ++
    s.findings ++ s.targets.filterMap s.targetFinding?

/-- **Report on a text.** -/
def check (text : String) : Report :=
  if Text.isBlankText text then ⟨[⟨none, .emptyText⟩]⟩
  else ⟨checkTokens (tokens (Dialect.detect text).escapesBackslash text)⟩

theorem check_ofList (cs : List Char) : check (.ofList cs) =
    if cs.all Text.isBlank then ⟨[⟨none, .emptyText⟩]⟩
    else ⟨checkTokens (placeTokens 1 (lexemes (Dialect.ofChars cs).escapesBackslash cs))⟩ := by
  rw [check, Text.isBlankText, String.toList_ofList, Dialect.detect_ofList, tokens_ofList]

/-! ## Valid texts are balanced -/

theorem isWarning_parenFindings {opened : List Nat} {ts : List Placed} {f : Finding}
    (h : f ∈ parenFindings opened ts) : f.isWarning = false := by
  induction ts generalizing opened with
  | nil =>
    unfold parenFindings at h
    split at h
    · simp only [List.mem_singleton] at h
      subst h; rfl
    · simp at h
  | cons p rest ih =>
    unfold parenFindings at h
    split at h
    · exact ih h
    · split at h
      · exact ih h
      · rcases List.mem_cons.1 h with rfl | h
        · rfl
        · exact ih h
    · exact ih h

theorem check_valid_balanced {text : String} (h : (check text).isValid = true) :
    Closes 0 ((tokens (Dialect.detect text).escapesBackslash text).map (·.token)) := by
  unfold check at h
  split at h
  · simp [Report.isValid, Finding.isWarning, Problem.isWarning] at h
  · rw [← List.length_nil (α := Nat), ← parenFindings_eq_nil_iff]
    refine List.eq_nil_iff_forall_not_mem.2 fun f hf => ?_
    have hw := isWarning_parenFindings hf
    have := List.all_eq_true.1 h f (by simp [checkTokens, hf])
    simp [hw] at this

end DdlGraph.Check
