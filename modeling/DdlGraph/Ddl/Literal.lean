import DdlGraph.Settings
import DdlGraph.Sql.Token.Lexer
import DdlGraph.Text.Find
import DdlGraph.Text.Trim

/-!
# Names and literals in a dialect

* `count_doubled`: a mark inside of quotes is written twice.
-/

namespace DdlGraph.Ddl

open DdlGraph.Sql

/-- Every `c` written twice. -/
def doubled (c : Char) (cs : List Char) : List Char :=
  cs.flatMap fun d => if d = c then [c, c] else [d]

/-- A name between quote marks. -/
def quotedName (dialect : Dialect) (name : String) : String :=
  let q := dialect.quoteMark
  .ofList (q :: doubled q name.toList ++ [q])

/-- **Name in a text**: between quote marks, or bare if case does not count and the name reads back
as one word. -/
def quote (settings : Settings) (name : String) : String :=
  if !settings.caseSensitive && isPlainIdentifier name then name
  else quotedName settings.dialect name

/-- **String literal.** A dialect that reads backslashes as escapes has them doubled. -/
def stringLiteral (dialect : Dialect) (value : String) : String :=
  let apostrophes := doubled '\'' value.toList
  let cs := if dialect.escapesBackslash then doubled '\\' apostrophes else apostrophes
  .ofList ('\'' :: cs ++ ['\''])

/-- Literals with commas between them. -/
def stringList (dialect : Dialect) (values : List String) : String :=
  Text.join ", " (values.map (stringLiteral dialect))

/-! ## Numbers -/

/-- The text is an exponent, or nothing. -/
def isExponent : List Char → Bool
  | [] => true
  | c :: cs =>
    let digits := match cs with
      | '+' :: ds => ds
      | '-' :: ds => ds
      | ds => ds
    (c == 'e' || c == 'E') && !digits.isEmpty && digits.all Char.isDigit

/-- The text is a number without sign: digits with a point among or around them, and an
exponent. -/
def isUnsignedNumber (cs : List Char) : Bool :=
  let whole := cs.takeWhile Char.isDigit
  match cs.dropWhile Char.isDigit with
  | '.' :: rest =>
    !(whole.isEmpty && (rest.takeWhile Char.isDigit).isEmpty) &&
      isExponent (rest.dropWhile Char.isDigit)
  | rest => !whole.isEmpty && isExponent rest

/-- The text is a number, or a word for what is no finite number. -/
def isNumber (cs : List Char) : Bool :=
  let unsigned := match cs with
    | '+' :: rest => rest
    | '-' :: rest => rest
    | rest => rest
  isUnsignedNumber unsigned ||
    ["inf", "infinity", "nan"].any fun word => unsigned.map Char.toLower == word.toList

/-- A number that can stand in a text as it is: it begins with a digit, a sign or a point. -/
def isNumberLiteral (cs : List Char) : Bool :=
  match cs with
  | c :: _ => (c.isDigit || c == '-' || c == '+' || c == '.') && isNumber cs
  | [] => false

/-! ## Default values -/

/-- A word that stands for a value. -/
def isValueWord (value : String) : Bool :=
  let capital := Text.upper value
  capital == "NULL" || capital == "TRUE" || capital == "FALSE" ||
    "CURRENT_".toList.isPrefixOf capital.toList || capital == "LOCALTIMESTAMP"

/-- A bare name with something in parentheses. -/
def isCall (cs : List Char) : Bool :=
  cs.getLast? == some ')' &&
    match Text.splitAtFirst? ['('] cs with
    | some (name, _) => !name.isEmpty && isPlainIdentifier (.ofList name)
    | none => false

/-- Something in parentheses. -/
def isExpression (cs : List Char) : Bool :=
  cs.head? == some '(' && cs.getLast? == some ')'

/-- The value stands in a text as it is. -/
def isRawDefault (value : String) : Bool :=
  isNumberLiteral value.toList || isValueWord value || isCall value.toList ||
    isExpression value.toList

/-- **Default value**: numbers, words for values, calls and expressions as they are, all else as a
string literal. -/
def defaultLiteral (dialect : Dialect) (value : String) : String :=
  if isRawDefault value then value else stringLiteral dialect value

/-! ## Doubling -/

theorem doubled_append (c : Char) (xs ys : List Char) :
    doubled c (xs ++ ys) = doubled c xs ++ doubled c ys := by
  simp [doubled]

theorem count_doubled (c : Char) (cs : List Char) : (doubled c cs).count c = 2 * cs.count c := by
  induction cs with
  | nil => rfl
  | cons d cs ih =>
    have h : doubled c (d :: cs) = (if d = c then [c, c] else [d]) ++ doubled c cs := rfl
    rw [h, List.count_append, ih]
    by_cases hd : d = c
    · simp [hd]; omega
    · simp [hd]

end DdlGraph.Ddl
