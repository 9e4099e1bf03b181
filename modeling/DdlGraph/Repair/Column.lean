import DdlGraph.Sql.Token.Lexer
import DdlGraph.Sql.TypeName
import DdlGraph.Text.Pattern

/-!
# Columns in a text with mistakes

Where a column begins, and how far a name of several words goes that nobody quoted. Both are told
by the words that name a type: the built-in ones and the enumerations that the text declares.
-/

namespace DdlGraph.Repair

open DdlGraph.Text DdlGraph.Sql

/-- A blank within a line. -/
def isInlineBlank (c : Char) : Bool :=
  c == ' ' || c == '\t'

/-- A letter of ASCII or an underscore. -/
def isNameStart (c : Char) : Bool :=
  c.isAlpha || c == '_'

/-- The same where case is left aside: two more characters have an ASCII letter in their class. -/
def isNameStartAnyCase (c : Char) : Bool :=
  isNameStart (foldChar c)

/-- A name in quotes. -/
def quotedPattern (opening closing : Char) : Pattern :=
  .all [.char opening, .run1 (· != closing), .char closing]

/-- A bare word. -/
def bareWord : Pattern :=
  .seq (.one isNameStartAnyCase) (.span isWord)

/-- Blanks within a line and a bare word. -/
def nextBareWord : Pattern :=
  .seq (.run1 isInlineBlank) bareWord

/-- The words that name types in a text. -/
structure TypeWords where
  /-- The enumerations that the text declares. -/
  enums : List String

namespace TypeWords

/-- `CREATE TYPE name AS ENUM`, where the name is the second part. -/
def declaration : List Pattern :=
  let quoteMark := Pattern.optional (.one fun c => c == '"' || c == '`')
  [.all [.wordEdge, .word "CREATE", .gap, .word "TYPE", .gap, quoteMark],
   .run1 isWord,
   .all [quoteMark, .gap, .word "AS", .gap, .word "ENUM", .wordEdge]]

/-- The type words of a text. -/
def ofText (cs : List Char) : TypeWords :=
  ⟨(occurrences declaration cs).filterMap fun
    | [_, name, _] => some (.ofList name)
    | _ => none⟩

/-- The word names a type. -/
def holds (types : TypeWords) (word : String) : Bool :=
  let small := lower word
  knownTypes.contains small || (types.enums.map lower).contains small

/-- A line that a column begins: a name, a blank and a type. -/
def columnStart (types : TypeWords) : List Pattern :=
  [.all [.start, .span isInlineBlank,
    .first [quotedPattern '"' '"', quotedPattern '`' '`', quotedPattern '[' ']',
      .seq bareWord (.few nextBareWord)],
    .run1 isInlineBlank,
    .first ((knownTypes ++ types.enums).map Pattern.word),
    .wordEdge]]

/-- **A column begins with this line**: its name is quoted, or no keyword and no word that goes on
a type. -/
def startsColumn (types : TypeWords) (line : List Char) : Bool :=
  (start? types.columnStart line).isSome &&
    match (words line).head? with
    | some word =>
      word.head? == some '"' || word.head? == some '`' || word.head? == some '[' ||
        (isPlainIdentifier (.ofList word) && !continuesType (.ofList word))
    | none => false

/-- A word at the start of a text, and what follows. -/
def splitWord? : List Char → Option (List Char × List Char)
  | [] => none
  | c :: cs =>
    if isNameStart c then some (c :: cs.takeWhile isWord, cs.dropWhile isWord) else none

theorem length_splitWord {cs word rest : List Char} (h : splitWord? cs = some (word, rest)) :
    rest.length < cs.length := by
  unfold splitWord? at h
  split at h
  · simp at h
  · split at h
    · simp only [Option.some.injEq, Prod.mk.injEq] at h
      rw [← h.2]
      exact Nat.lt_succ_of_le (List.IsSuffix.length_le (List.dropWhile_suffix _))
    · simp at h

/-- The name goes on after `name`, which has `count` words, up to a type. -/
def nameUpToType? (types : TypeWords) (count : Nat) (name rest : List Char) :
    Option (List Char × List Char) :=
  let blanks := rest.takeWhile isInlineBlank
  if 0 < count ∧ blanks.isEmpty then none
  else match _h : splitWord? (rest.dropWhile isInlineBlank) with
    | none => none
    | some (word, rest') =>
      if 0 < count ∧ types.holds (.ofList word) then
        if 2 ≤ count then some (name, rest) else none
      else if isPlainIdentifier (.ofList word) then
        nameUpToType? types (count + 1) (name ++ blanks ++ word) rest'
      else none
termination_by rest.length
decreasing_by
  have h1 := length_splitWord _h
  have h2 := List.IsSuffix.length_le (List.dropWhile_suffix (l := rest) isInlineBlank)
  omega

/-- **Name of several bare words** at the start of a definition: the blanks before it, the name and
what follows it, the type first. -/
def severalWords? (types : TypeWords) (cs : List Char) :
    Option (List Char × List Char × List Char) :=
  (types.nameUpToType? 0 [] (cs.dropWhile isInlineBlank)).map fun r =>
    (cs.takeWhile isInlineBlank, r.1, r.2)

end TypeWords

end DdlGraph.Repair
