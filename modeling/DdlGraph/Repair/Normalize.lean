import DdlGraph.Ddl.Script
import DdlGraph.Repair.Table

/-!
# Normal texts

Mistakes that are often made by hand are repaired before a text is read: names of several words are
quoted, missing commas are put in, and a foreign key that is added twice is added once. Comments
and statements that add foreign keys are not touched.
-/

namespace DdlGraph.Repair

open DdlGraph.Text DdlGraph.Sql

/-- A comment, to the end of the line or to the next star and slash. -/
def commentPattern : List Pattern :=
  [.either
    (.all [.char '-', .char '-', .span (· != '\n')])
    (.all [.char '/', .char '*', .upTo, .char '*', .char '/'])]

/-- The name of a table, in quotes or bare with points. -/
def tableName : Pattern :=
  .first [quotedPattern '"' '"', quotedPattern '`' '`', .run1 fun c => isWord c || c == '.']

/-- Something in parentheses with neither parentheses nor a semicolon in it. -/
def plainParens : Pattern :=
  .all [.char '(', .span fun c => c != ';' && c != '(' && c != ')', .char ')']

/-- A statement that adds a foreign key. -/
def addedKeyPattern : List Pattern :=
  [.all [.wordEdge, .word "ALTER", .gap, .word "TABLE", .gap,
    .optional (.seq (.word "ONLY") .gap),
    tableName, .gap, .word "ADD", .gap,
    .optional (.all [.word "CONSTRAINT", .gap,
      .first [quotedPattern '"' '"', quotedPattern '`' '`', .run1 isWord], .gap]),
    .word "FOREIGN", .gap, .word "KEY", .span isBlank, plainParens, .span isBlank,
    .word "REFERENCES", .gap, tableName, .span isBlank, plainParens,
    .span (· != ';'), .char ';']]

/-- The target of a foreign key that has several bare words; they are the second part. -/
def targetPattern : List Pattern :=
  [.all [.wordEdge, .word "REFERENCES", .gap],
   .all [bareWord, nextBareWord, .many nextBareWord],
   .seq (.span isInlineBlank) (.char '(')]

/-- The target of a foreign key with its name quoted. -/
def quoteTarget (quoteMark : Char) (parts : List (List Char)) : List Char :=
  match parts with
  | [before, name, after] =>
    if allPlain name then before ++ quotedWords quoteMark name ++ after else parts.flatten
  | _ => parts.flatten

/-! ## Statements that stand twice -/

/-- A statement that alters a table, with the rest of its line. -/
def alterPattern : List Pattern :=
  [.all [.wordEdge, .word "ALTER", .gap, .word "TABLE", .wordEdge, .span (· != ';'), .char ';',
    .span isInlineBlank, .optional (.char '\n')]]

/-- The statement adds a constraint. -/
def addsConstraint (statement : List Char) : Bool :=
  Text.holds "ADD CONSTRAINT".toList (statement.flatMap upperChar)

/-- The pieces of a text without statements that add a constraint and stand in `seen` or before. -/
def dropRepeated (seen : List (List Char)) : List Segment → List Char
  | [] => []
  | .gap text :: rest => text ++ dropRepeated seen rest
  | .found parts :: rest =>
    let statement := trimEnd parts.flatten
    if !addsConstraint statement then parts.flatten ++ dropRepeated seen rest
    else if seen.contains statement then dropRepeated seen rest
    else parts.flatten ++ dropRepeated (statement :: seen) rest

/-- **The text without repeated constraints** after the line that begins the foreign keys. -/
def dropRepeatedKeys (cs : List Char) : List Char :=
  match splitAtFirst? Ddl.keySectionMark.toList cs with
  | some (head, tail) => head ++ dropRepeated [] (segments alterPattern tail)
  | none => cs

/-! ## All repairs -/

/-- The characters of a text in a dialect, repaired by the words that name types. Where no pattern
can be built from these words, nothing but repeated keys is repaired. -/
def repairBy (types : Option TypeWords) (dialect : Dialect) (cs : List Char) : List Char :=
  match types with
  | none => dropRepeatedKeys cs
  | some types =>
    let quoteMark := dialect.quoteMark
    let masked := mask addedKeyPattern (mask commentPattern ⟨cs, []⟩)
    let repaired := repairTables types quoteMark none masked.text
    let repaired := replace targetPattern (quoteTarget quoteMark) repaired
    dropRepeatedKeys (restore masked.pieces repaired)

/-- The characters of a text in a dialect, with all repairs. -/
def normalizeChars (dialect : Dialect) (cs : List Char) : List Char :=
  repairBy (some (.ofText cs)) dialect cs

/-- **Normal text.** -/
def normalize (text : String) : String :=
  .ofList (normalizeChars (Dialect.detect text) text.toList)

/-- **Normal text under a limit** of patterns, where `builds` tells from which words that name types
one can be built. -/
def normalizeWithin (builds : TypeWords → Bool) (text : String) : String :=
  .ofList (repairBy (Option.guard builds (.ofText text.toList)) (Dialect.detect text) text.toList)

/-- The limit is met or the text only loses repeated keys. -/
theorem normalizeWithin_eq (builds : TypeWords → Bool) (text : String) :
    normalizeWithin builds text = if builds (.ofText text.toList) then normalize text
      else .ofList (dropRepeatedKeys text.toList) := by
  unfold normalizeWithin normalize normalizeChars
  cases h : builds (.ofText text.toList) <;> simp [Option.guard, h, repairBy]

theorem normalize_ofList (cs : List Char) :
    normalize (.ofList cs) = .ofList (normalizeChars (Dialect.ofChars cs) cs) := by
  rw [normalize, Dialect.detect_ofList, String.toList_ofList]

end DdlGraph.Repair
