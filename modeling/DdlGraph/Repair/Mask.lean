import DdlGraph.Text.Pattern

/-!
# Text that is not to be touched

Comments and whole statements are put aside while the rest is repaired: a mark with a number stands
for each of them. A mark is a NUL, digits and a NUL, and what is put back is not searched for marks
again.
-/

namespace DdlGraph.Repair

open DdlGraph.Text

/-- The mark for the piece number `n`. -/
def mark (n : Nat) : List Char :=
  '\x00' :: Nat.toDigits 10 n ++ ['\x00']

/-- A mark: a NUL, digits of any script, and a NUL. -/
def markPattern : List Pattern :=
  [.all [.char '\x00', .run1 isDecimal, .char '\x00']]

/-- A text with marks, and what they stand for. -/
structure Masked where
  text : List Char
  pieces : List (List Char)
deriving DecidableEq

/-- A text with marks for its matches, the first of which has the number `n`. -/
def markFrom (n : Nat) : List Segment → List Char
  | [] => []
  | .gap text :: rest => text ++ markFrom n rest
  | .found _ :: rest => mark n ++ markFrom (n + 1) rest

/-- The matches in a text. -/
def matchesOf (segments : List Segment) : List (List Char) :=
  segments.filterMap fun
    | .gap _ => none
    | .found parts => some parts.flatten

/-- **Puts aside** every match of the patterns. -/
def mask (ps : List Pattern) (m : Masked) : Masked :=
  let segments := segments ps m.text
  ⟨markFrom m.pieces.length segments, m.pieces ++ matchesOf segments⟩

/-- The number of a mark, if its digits are ASCII. -/
def markNumber? (text : List Char) : Option Nat :=
  let digits := text.filter (· != '\x00')
  if digits.all Char.isDigit then
    some (digits.foldl (fun n d => 10 * n + (d.toNat - 48)) 0)
  else none

/-- **Puts back** what marks stand for. A mark that stands for nothing goes. -/
def restore (pieces : List (List Char)) (text : List Char) : List Char :=
  let table := pieces.toArray
  replace markPattern (fun parts =>
    ((markNumber? parts.flatten).bind (table[·]?)).getD []) text

/-- The text without its marks. -/
def withoutMarks (text : List Char) : List Char :=
  replace markPattern (fun _ => []) text

end DdlGraph.Repair
