import DdlGraph.Json.Basic
import DdlGraph.Number.Decimal

/-!
# Reading JSON

The value that a text holds. Space, tab, line feed and carriage return may stand between the signs;
after the value there may be nothing else.

* `Json.read?`: the value of a text;
* `Decimal.ofLiteral?`: the parts of a number;
* `joinUnits_chars`: units that are no surrogates are their characters.
-/

namespace DdlGraph

/-! ## Numbers -/

/-- Digits at the start of a text, as values. -/
def digitValues (cs : List Char) : List Nat :=
  (cs.takeWhile Char.isDigit).map fun c => c.toNat - 48

/-- The digits of a whole number and what follows. Zero stands alone. -/
def wholeDigits? (cs : List Char) : Option (List Nat × List Char) :=
  match cs.takeWhile Char.isDigit with
  | [] => none
  | ['0'] => some ([0], cs.dropWhile Char.isDigit)
  | '0' :: _ => none
  | _ => some (digitValues cs, cs.dropWhile Char.isDigit)

/-- The digits after a point, if there is one. -/
def fractionDigits? : List Char → Option (List Nat × List Char)
  | '.' :: cs => match digitValues cs with
    | [] => none
    | ds => some (ds, cs.dropWhile Char.isDigit)
  | cs => some ([], cs)

/-- The sign and the digits of an exponent, if there is one. -/
def exponentDigits? (cs : List Char) : Option (Option (Bool × List Nat) × List Char) :=
  let digits (down : Bool) (cs : List Char) := match digitValues cs with
    | [] => none
    | ds => some (some (down, ds), cs.dropWhile Char.isDigit)
  match cs with
  | c :: cs =>
    if c = 'e' ∨ c = 'E' then match cs with
      | '+' :: cs => digits false cs
      | '-' :: cs => digits true cs
      | cs => digits false cs
    else some (none, c :: cs)
  | [] => some (none, [])

/-- A number at the start of a text, and what follows. -/
def Decimal.read? (cs : List Char) : Option (Decimal × List Char) := do
  let (negative, cs) := match cs with
    | '-' :: cs => (true, cs)
    | cs => (false, cs)
  let (whole, cs) ← wholeDigits? cs
  let (fraction, cs) ← fractionDigits? cs
  let (exponent, cs) ← exponentDigits? cs
  return (⟨negative, whole, fraction, exponent⟩, cs)

/-- **Number** that a text spells, from its first character to its last. -/
def Decimal.ofLiteral? (literal : String) : Option Decimal :=
  match Decimal.read? literal.toList with
  | some (d, []) => some d
  | _ => none

namespace Json

/-! ## Strings -/

def hexValue? (c : Char) : Option Nat :=
  if c.isDigit then some (c.toNat - 48)
  else if 'a' ≤ c ∧ c ≤ 'f' then some (c.toNat - 87)
  else if 'A' ≤ c ∧ c ≤ 'F' then some (c.toNat - 55)
  else none

/-- The value of four hexadecimal digits. -/
def hexUnit? (a b c d : Char) : Option Nat := do
  return ((← hexValue? a) * 16 + (← hexValue? b)) * 256 + (← hexValue? c) * 16 + (← hexValue? d)

/-- The character that a backslash and `c` stand for. -/
def escape? : Char → Option Nat
  | '"' => some 34
  | '\\' => some 92
  | '/' => some 47
  | 'b' => some 8
  | 'f' => some 12
  | 'n' => some 10
  | 'r' => some 13
  | 't' => some 9
  | _ => none

/-- The units of a string after its opening quote, and what follows: code points, and 16-bit units
where an escape gives them. -/
def stringUnits? : List Char → Option (List Nat × List Char)
  | [] => none
  | '"' :: cs => some ([], cs)
  | '\\' :: 'u' :: a :: b :: c :: d :: cs => do
    let u ← hexUnit? a b c d
    let r ← stringUnits? cs
    return (u :: r.1, r.2)
  | '\\' :: c :: cs => do
    let u ← escape? c
    let r ← stringUnits? cs
    return (u :: r.1, r.2)
  | c :: cs =>
    if c = '\\' ∨ c.toNat < 32 then none
    else do
      let r ← stringUnits? cs
      return (c.toNat :: r.1, r.2)

/-- The characters of units, if both halves of every surrogate pair are there. -/
def joinUnits? : List Nat → Option (List Char)
  | [] => some []
  | [u] => if 0xd800 ≤ u ∧ u ≤ 0xdfff then none else some [Char.ofNat u]
  | u :: v :: us =>
    if 0xd800 ≤ u ∧ u ≤ 0xdbff then
      if 0xdc00 ≤ v ∧ v ≤ 0xdfff then
        (joinUnits? us).map (Char.ofNat (0x10000 + (u - 0xd800) * 1024 + (v - 0xdc00)) :: ·)
      else none
    else if 0xdc00 ≤ u ∧ u ≤ 0xdfff then none
    else (joinUnits? (v :: us)).map (Char.ofNat u :: ·)

/-- A string after its opening quote. -/
def readString? (cs : List Char) : Option (Option String × List Char) :=
  (stringUnits? cs).map fun r => ((joinUnits? r.1).map String.ofList, r.2)

/-! ## Values -/

def isSpace (c : Char) : Bool :=
  c == ' ' || c == '\n' || c == '\t' || c == '\r'

def skipSpace (cs : List Char) : List Char :=
  cs.dropWhile isSpace

/-- Characters that numbers are written with. -/
def isNumberPart (c : Char) : Bool :=
  c.isDigit || c == '-' || c == '+' || c == '.' || c == 'e' || c == 'E'

/-- A literal word after its first letter. -/
def readWord? (word : String) (j : Json) (cs : List Char) : Option (Json × List Char) :=
  if word.toList.isPrefixOf cs then some (j, cs.drop word.length) else none

mutual

/-- A value at the start of a text, and what follows. Each step down uses up one of `fuel`. -/
def readValue? : (fuel : Nat) → List Char → Option (Json × List Char)
  | 0, _ => none
  | fuel + 1, cs => match skipSpace cs with
    | 'n' :: cs => readWord? "ull" .null cs
    | 't' :: cs => readWord? "rue" (.bool true) cs
    | 'f' :: cs => readWord? "alse" (.bool false) cs
    | '"' :: cs => (readString? cs).map fun r => (.string r.1, r.2)
    | '[' :: cs => match skipSpace cs with
      | ']' :: cs => some (.array [], cs)
      | cs => (readItems? fuel cs).map fun r => (.array r.1, r.2)
    | '\x7b' :: cs => match skipSpace cs with
      | '\x7d' :: cs => some (.object [], cs)
      | cs => (readMembers? fuel cs).map fun r => (.object r.1, r.2)
    | cs =>
      let literal := String.ofList (cs.takeWhile isNumberPart)
      if (Decimal.ofLiteral? literal).isSome then
        some (.number literal, cs.dropWhile isNumberPart)
      else none

/-- Items up to the closing bracket. -/
def readItems? : (fuel : Nat) → List Char → Option (List Json × List Char)
  | 0, _ => none
  | fuel + 1, cs => do
    let (j, cs) ← readValue? fuel cs
    match skipSpace cs with
    | ',' :: cs => do
      let (rest, cs) ← readItems? fuel cs
      return (j :: rest, cs)
    | ']' :: cs => some ([j], cs)
    | _ => none

/-- Members up to the closing brace. -/
def readMembers? : (fuel : Nat) → List Char → Option (List (Option String × Json) × List Char)
  | 0, _ => none
  | fuel + 1, cs => do
    let '"' :: cs := skipSpace cs | none
    let (key, cs) ← readString? cs
    let ':' :: cs := skipSpace cs | none
    let (j, cs) ← readValue? fuel cs
    match skipSpace cs with
    | ',' :: cs => do
      let (rest, cs) ← readMembers? fuel cs
      return ((key, j) :: rest, cs)
    | '\x7d' :: cs => some ([(key, j)], cs)
    | _ => none

end

/-- **Value of a text**, which may hold nothing else. -/
def read? (s : String) : Option Json :=
  let cs := s.toList
  match readValue? (2 * cs.length + 2) cs with
  | some (j, rest) => if (skipSpace rest).isEmpty then some j else none
  | none => none

theorem joinUnits_chars (cs : List Char) : joinUnits? (cs.map Char.toNat) = some cs := by
  have surrogate : ∀ c : Char, ¬ (0xd800 ≤ c.toNat ∧ c.toNat ≤ 0xdfff) := by
    intro c
    have := c.valid
    rcases this with h | h
    · intro g
      have : c.toNat < 0xd800 := h
      omega
    · intro g
      have : 0xdfff < c.toNat := h.1
      omega
  induction cs with
  | nil => rfl
  | cons c cs ih =>
    have hc := surrogate c
    cases cs with
    | nil => simp [joinUnits?, hc]
    | cons d cs =>
      have h1 : ¬ (0xd800 ≤ c.toNat ∧ c.toNat ≤ 0xdbff) := by omega
      have h2 : ¬ (0xdc00 ≤ c.toNat ∧ c.toNat ≤ 0xdfff) := by omega
      simp only [List.map_cons] at ih ⊢
      simp [joinUnits?, h1, h2, ih]

end Json

end DdlGraph
