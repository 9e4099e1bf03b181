/-!
# JSON values

* `compact`, `pretty`: the text of a value, on one line or with two blanks for each level;
* `escapedChar_plain`: what is not a quote, a backslash or a control stands for itself.
-/

namespace DdlGraph

/-- A JSON value. Numbers are kept as they are written. A string with half of a surrogate pair is
well formed but no text: it is `none`. -/
inductive Json where
  | null
  | bool (b : Bool)
  | number (literal : String)
  | string (text : Option String)
  | array (items : List Json)
  | object (members : List (Option String × Json))

namespace Json

/-- A string. -/
def text (s : String) : Json :=
  .string (some s)

/-- An object with the given members, in order. -/
def record (members : List (String × Json)) : Json :=
  .object (members.map fun m => (some m.1, m.2))

def natural (n : Nat) : Json :=
  .number (toString n)

def ofOption {α : Type} (f : α → Json) : Option α → Json
  | some a => f a
  | none => .null

def ofList {α : Type} (f : α → Json) (as : List α) : Json :=
  .array (as.map f)

/-! ## Text -/

/-- The digit of a value below 16. -/
def hexDigit (n : Nat) : Char :=
  "0123456789abcdef".toList.getD n '0'

/-- **Escaped form** of a character in a string. -/
def escapedChar (c : Char) : List Char :=
  if c = '"' then ['\\', '"']
  else if c = '\\' then ['\\', '\\']
  else if c.toNat = 8 then ['\\', 'b']
  else if c.toNat = 12 then ['\\', 'f']
  else if c = '\n' then ['\\', 'n']
  else if c = '\r' then ['\\', 'r']
  else if c = '\t' then ['\\', 't']
  else if c.toNat < 32 then
    ['\\', 'u', '0', '0', hexDigit (c.toNat / 16), hexDigit (c.toNat % 16)]
  else [c]

/-- A string between quotes. -/
def quotedChars (s : String) : List Char :=
  '"' :: s.toList.flatMap escapedChar ++ ['"']

/-- The same for what may be no text. -/
def stringChars : Option String → List Char
  | some s => quotedChars s
  | none => ['"', '"']

theorem escapedChar_plain {c : Char} (h : 32 ≤ c.toNat) (hq : c ≠ '"') (hb : c ≠ '\\') :
    escapedChar c = [c] := by
  have hn : ∀ d : Char, d.toNat < 32 → c ≠ d := by
    rintro d hd rfl; omega
  have h8 : c.toNat ≠ 8 := by omega
  have h12 : c.toNat ≠ 12 := by omega
  have h32 : ¬ c.toNat < 32 := by omega
  simp [escapedChar, hq, hb, h8, h12, h32, hn '\n' (by decide), hn '\r' (by decide),
    hn '\t' (by decide)]

mutual

/-- The text of a value on one line. -/
def compactChars : Json → List Char
  | .null => "null".toList
  | .bool true => "true".toList
  | .bool false => "false".toList
  | .number literal => literal.toList
  | .string s => stringChars s
  | .array items => '[' :: compactItems items ++ [']']
  | .object members => '\x7b' :: compactMembers members ++ ['\x7d']

/-- Items with commas between them. -/
def compactItems : List Json → List Char
  | [] => []
  | [j] => compactChars j
  | j :: k :: rest => compactChars j ++ ',' :: compactItems (k :: rest)

/-- Members with commas between them. -/
def compactMembers : List (Option String × Json) → List Char
  | [] => []
  | [(key, j)] => stringChars key ++ ':' :: compactChars j
  | (key, j) :: m :: rest =>
    stringChars key ++ ':' :: compactChars j ++ ',' :: compactMembers (m :: rest)

end

/-- A line break and two blanks for each level. -/
def newLine (level : Nat) : List Char :=
  '\n' :: List.replicate (2 * level) ' '

mutual

/-- The text of a value with each item on its own line. -/
def prettyChars (level : Nat) : Json → List Char
  | .null => "null".toList
  | .bool true => "true".toList
  | .bool false => "false".toList
  | .number literal => literal.toList
  | .string s => stringChars s
  | .array [] => ['[', ']']
  | .array (j :: rest) => '[' :: prettyItems (level + 1) (j :: rest) ++ newLine level ++ [']']
  | .object [] => ['\x7b', '\x7d']
  | .object (m :: rest) =>
    '\x7b' :: prettyMembers (level + 1) (m :: rest) ++ newLine level ++ ['\x7d']

def prettyItems (level : Nat) : List Json → List Char
  | [] => []
  | [j] => newLine level ++ prettyChars level j
  | j :: k :: rest => newLine level ++ prettyChars level j ++ ',' :: prettyItems level (k :: rest)

def prettyMembers (level : Nat) : List (Option String × Json) → List Char
  | [] => []
  | [(key, j)] => newLine level ++ stringChars key ++ ':' :: ' ' :: prettyChars level j
  | (key, j) :: m :: rest =>
    newLine level ++ stringChars key ++ ':' :: ' ' :: prettyChars level j ++
      ',' :: prettyMembers level (m :: rest)

end

/-- **Text on one line**, without blanks. -/
def compact (j : Json) : String :=
  .ofList j.compactChars

/-- **Indented text.** -/
def pretty (j : Json) : String :=
  .ofList (prettyChars 0 j)

end Json

end DdlGraph
