import DdlGraph.Json.Reader

/-!
# Decoding records

A record is an object, whose unknown members are passed over, or a list of its fields in order. A
field that is missing takes its default if it has one; `null` is a value only for a field that may
be absent.

* `members?`: the values of the named fields, of either form.
-/

namespace DdlGraph.Json

variable {α : Type}

/-- No known member is given twice. -/
def noRepeats (names : List String) (members : List (Option String × Json)) : Bool :=
  names.all fun name => (members.filter fun m => m.1 == some name).length ≤ 1

/-- **Fields of a record**, those that are missing as none. -/
def members? (names : List String) : Json → Option (List (Option Json))
  | .object members =>
    if members.all (·.1.isSome) && noRepeats names members then
      some (names.map fun name => (members.find? fun m => m.1 == some name).map (·.2))
    else none
  | .array items =>
    if items.length ≤ names.length then
      some (items.map some ++ List.replicate (names.length - items.length) none)
    else none
  | _ => none

/-- A field that has to be there. -/
def required (decode : Json → Option α) : Option Json → Option α
  | some j => decode j
  | none => none

/-- A field with a default. -/
def withDefault (default : α) (decode : Json → Option α) : Option Json → Option α
  | some j => decode j
  | none => some default

/-- A field that may be absent, also as `null`. -/
def optional (decode : Json → Option α) : Option Json → Option (Option α)
  | none | some .null => some none
  | some j => (decode j).map some

def string? : Json → Option String
  | .string s => s
  | _ => none

def bool? : Json → Option Bool
  | .bool b => some b
  | _ => none

def double? : Json → Option Binary64
  | .number literal => (Decimal.ofLiteral? literal).bind Decimal.value?
  | _ => none

def list? (decode : Json → Option α) : Json → Option (List α)
  | .array items => items.mapM decode
  | _ => none

/-- One of the words of a table; a word may also be the only member of an object, with `null`. -/
def word? (table : List (String × α)) : Json → Option α
  | .string (some s) => table.lookup s
  | .object [(some s, .null)] => table.lookup s
  | _ => none

end DdlGraph.Json
