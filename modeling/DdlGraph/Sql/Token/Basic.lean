import DdlGraph.Text.Case
import DdlGraph.Text.Printable

/-!
# Tokens of SQL text

* `Keyword.ofWord?`: a word in any case, under full case mapping, names a keyword;
* `Token.nameText?`: keywords that are often names may stand for one.
-/

namespace DdlGraph.Sql

inductive Keyword where
  | create | alter | add | table | type | as | enum | only | primary | key | foreign | references
  | not | null | unique | default | on | delete | update | cascade | restrict | constraint | index
  | if | exists
  /-- First half of `AUTO INCREMENT`. -/
  | auto
  /-- Also `AUTO_INCREMENT` and `AUTOINCREMENT`. -/
  | increment
  | check
deriving DecidableEq

inductive Token where
  | keyword (k : Keyword)
  | ident (name : String)
  | quotedIdent (name : String)
  | str (text : String)
  | num (digits : String)
  | lparen
  | rparen
  | comma
  | semicolon
  | dot
  /-- `[]` after a type. -/
  | arraySuffix
  | endOfText
deriving DecidableEq

/-- A token and the line it starts on, counted from 1. -/
structure Placed where
  token : Token
  line : Nat
deriving DecidableEq

/-- The keyword that a word spells. -/
def Keyword.ofWord? (word : String) : Option Keyword :=
  match Text.upper word with
  | "CREATE" => some .create
  | "ALTER" => some .alter
  | "ADD" => some .add
  | "TABLE" => some .table
  | "TYPE" => some .type
  | "AS" => some .as
  | "ENUM" => some .enum
  | "ONLY" => some .only
  | "PRIMARY" => some .primary
  | "KEY" => some .key
  | "FOREIGN" => some .foreign
  | "REFERENCES" => some .references
  | "NOT" => some .not
  | "NULL" => some .null
  | "UNIQUE" => some .unique
  | "DEFAULT" => some .default
  | "ON" => some .on
  | "DELETE" => some .delete
  | "UPDATE" => some .update
  | "CASCADE" => some .cascade
  | "RESTRICT" => some .restrict
  | "CONSTRAINT" => some .constraint
  | "INDEX" => some .index
  | "IF" => some .if
  | "EXISTS" => some .exists
  | "AUTO" => some .auto
  | "INCREMENT" | "AUTO_INCREMENT" | "AUTOINCREMENT" => some .increment
  | "CHECK" => some .check
  | _ => none

/-- The name of a keyword in messages. -/
def Keyword.label : Keyword → String
  | .create => "Create"
  | .alter => "Alter"
  | .add => "Add"
  | .table => "Table"
  | .type => "Type"
  | .as => "As"
  | .enum => "Enum"
  | .only => "Only"
  | .primary => "Primary"
  | .key => "Key"
  | .foreign => "Foreign"
  | .references => "References"
  | .not => "Not"
  | .null => "Null"
  | .unique => "Unique"
  | .default => "Default"
  | .on => "On"
  | .delete => "Delete"
  | .update => "Update"
  | .cascade => "Cascade"
  | .restrict => "Restrict"
  | .constraint => "Constraint"
  | .index => "Index"
  | .if => "If"
  | .exists => "Exists"
  | .auto => "Auto"
  | .increment => "Increment"
  | .check => "Check"

/-- The spelling of a keyword that may be the name of an object. -/
def Keyword.nameText? : Keyword → Option String
  | .type => some "type"
  | .enum => some "enum"
  | .key => some "key"
  | .index => some "index"
  | .only => some "only"
  | .update => some "update"
  | .delete => some "delete"
  | .cascade => some "cascade"
  | .restrict => some "restrict"
  | .exists => some "exists"
  | .auto => some "auto"
  | _ => none

namespace Token

/-- The token of a word. -/
def ofWord (word : String) : Token :=
  match Keyword.ofWord? word with
  | some k => .keyword k
  | none => .ident word

/-- The name that a token can stand for. -/
def nameText? : Token → Option String
  | .ident name | .quotedIdent name => some name
  | .keyword k => k.nameText?
  | _ => none

/-- The token is a bare word, equal to `word` up to the case of `A` to `Z`. -/
def isWord (t : Token) (word : String) : Bool :=
  match t with
  | .ident name => Text.sameAscii name word
  | _ => false

/-- How a message shows a token. -/
def label : Token → String
  | .keyword k => k.label
  | .ident name => "Ident(" ++ Text.quoted name ++ ")"
  | .quotedIdent name => "QuotedIdent(" ++ Text.quoted name ++ ")"
  | .str text => "Str(" ++ Text.quoted text ++ ")"
  | .num digits => "Num(" ++ Text.quoted digits ++ ")"
  | .lparen => "LParen"
  | .rparen => "RParen"
  | .comma => "Comma"
  | .semicolon => "Semicolon"
  | .dot => "Dot"
  | .arraySuffix => "ArraySuffix"
  | .endOfText => "Eof"

end Token

end DdlGraph.Sql
