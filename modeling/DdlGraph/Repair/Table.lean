import DdlGraph.Repair.Column
import DdlGraph.Repair.Mask

/-!
# Repairing table definitions

A missing comma is put between two lines where the second one begins a column, and names of several
words are quoted: that of the table, and those of columns.

* `splitClose_append`, `splitOpen_append`: a table is taken apart without loss.
-/

namespace DdlGraph.Repair

open DdlGraph.Text DdlGraph.Sql

/-- A mark that begins a quotation. -/
def isQuoteMark (c : Char) : Bool :=
  c == '\'' || c == '"' || c == '`'

/-- The quotation that is open after `c`, if `open_` was before. -/
def quotationAfter (open_ : Option Char) (c : Char) : Option Char :=
  match open_ with
  | some q => if c = q then none else some q
  | none => if isQuoteMark c then some c else none

/-- The words of a name between quote marks, with one blank between them. -/
def quotedWords (quoteMark : Char) (name : List Char) : List Char :=
  quoteMark :: [' '].intercalate (words name) ++ [quoteMark]

/-- All words of a name are plain. -/
def allPlain (name : List Char) : Bool :=
  (words name).all fun word => isPlainIdentifier (.ofList word)

/-! ## Lines -/

/-- Lines with their line breaks. -/
def linesOf : List Char → List (List Char)
  | [] => []
  | c :: cs =>
    if c = '\n' then [c] :: linesOf cs
    else match linesOf cs with
      | [] => [[c]]
      | line :: rest => (c :: line) :: rest

/-- Depth of parentheses and open quotation after a text. -/
def depthAfter (state : Int × Option Char) (cs : List Char) : Int × Option Char :=
  cs.foldl (fun (depth, open_) c =>
    let depth := if open_.isSome then depth
      else if c = '(' then depth + 1
      else if c = ')' then depth - 1
      else depth
    (depth, quotationAfter open_ c)) state

/-- Each line with the depth of parentheses that it begins at. -/
def withDepths (state : Int × Option Char) : List (List Char) → List (List Char × Int)
  | [] => []
  | line :: rest => (line, state.1) :: withDepths (depthAfter state line) rest

/-! ## Commas -/

/-- The pieces of a line without blanks and marks at its end. -/
def dropTrailing (pieces : List Segment) : List Segment :=
  (pieces.reverse.dropWhile fun
    | .gap text => text.all isBlank
    | .found _ => true).reverse

/-- The code of a line: what stands before the marks and blanks at its end. -/
def codeOf (line : List Char) : List Char :=
  trimEnd ((dropTrailing (segments markPattern line)).flatMap Segment.text)

/-- The line with a comma after its code, unless it has one, or opens a parenthesis, or has no
code. -/
def insertComma (line : List Char) : List Char :=
  let code := codeOf line
  match code.getLast? with
  | none => line
  | some c => if c = ',' ∨ c = '(' then line else code ++ ',' :: line.drop code.length

/-- The lines with commas where they are missing, and whether the first line that says something
begins a column. -/
def insertCommas (types : TypeWords) : List (List Char × Int) → List (List Char × Int) × Bool
  | [] => ([], false)
  | (line, depth) :: rest =>
    let r := insertCommas types rest
    let content := withoutMarks line
    if content.all isBlank then ((line, depth) :: r.1, r.2)
    else
      ((if r.2 then insertComma line else line, depth) :: r.1,
        decide (depth = 0) && types.startsColumn content)

/-! ## Names -/

/-- The parts of a line between commas outside of parentheses and quotations; `read` has the part
so far, backwards. -/
def splitParts (read : List Char) (depth : Int) (open_ : Option Char) :
    List Char → List (List Char)
  | [] => [read.reverse]
  | c :: cs =>
    if open_.isSome then splitParts (c :: read) depth (quotationAfter open_ c) cs
    else if c = ',' ∧ depth = 0 then read.reverse :: splitParts [] depth open_ cs
    else
      let depth := if c = '(' then depth + 1 else if c = ')' then depth - 1 else depth
      splitParts (c :: read) depth (quotationAfter open_ c) cs

/-- A definition with its name quoted, if that has several words. -/
def quoteName (types : TypeWords) (quoteMark : Char) (part : List Char) : List Char :=
  match types.severalWords? part with
  | some (blanks, name, rest) => blanks ++ quotedWords quoteMark name ++ rest
  | none => part

/-- The definitions of a line with their names quoted. -/
def quoteNames (types : TypeWords) (quoteMark : Char) (line : List Char) : List Char :=
  [','].intercalate ((splitParts [] 0 none line).map (quoteName types quoteMark))

/-- **Column list**: commas first, so that each column is an item of its own, then names. -/
def repairBody (types : TypeWords) (quoteMark : Char) (body : List Char) : List Char :=
  (insertCommas types (withDepths (0, none) (linesOf body))).1.flatMap fun (line, depth) =>
    if depth = 0 then quoteNames types quoteMark line else line

/-- `IF NOT EXISTS` at the start of a text. -/
def ifNotExists : List Pattern :=
  [.all [.start, .span isBlank, .word "IF", .gap, .word "NOT", .gap, .word "EXISTS", .wordEdge]]

/-- **Name of a table**, between `CREATE TABLE` and the column list. -/
def repairHeader (quoteMark : Char) (header : List Char) : List Char :=
  let before := ((start? ifNotExists header).getD []).flatten
  let name := header.drop before.length
  if (words name).length < 2 || !allPlain name then header
  else before ++ name.takeWhile isBlank ++ quotedWords quoteMark name ++
    (name.reverse.takeWhile isBlank).reverse

/-! ## Tables -/

/-- The text up to the first parenthesis outside of quotations, backwards and after `read`, and
what follows the parenthesis. A semicolon ends the search. -/
def splitOpen? (read : List Char) (open_ : Option Char) : List Char → Option (List Char × List Char)
  | [] => none
  | c :: cs =>
    if open_.isNone ∧ c = '(' then some (read, cs)
    else if open_.isNone ∧ c = ';' then none
    else splitOpen? (c :: read) (quotationAfter open_ c) cs

/-- The text up to the parenthesis that closes `depth + 1` open ones, backwards and after `read`,
and from there on. -/
def splitClose (read : List Char) (depth : Nat) (open_ : Option Char) :
    List Char → List Char × List Char
  | [] => (read, [])
  | c :: cs =>
    if open_.isSome then splitClose (c :: read) depth (quotationAfter open_ c) cs
    else if c = '(' then splitClose (c :: read) (depth + 1) none cs
    else if c = ')' then
      match depth with
      | 0 => (read, c :: cs)
      | d + 1 => splitClose (c :: read) d none cs
    else splitClose (c :: read) depth (quotationAfter open_ c) cs

theorem splitOpen_append {read cs header rest : List Char} {open_ : Option Char}
    (h : splitOpen? read open_ cs = some (header, rest)) :
    read.reverse ++ cs = header.reverse ++ '(' :: rest := by
  induction cs generalizing read open_ with
  | nil => simp [splitOpen?] at h
  | cons c cs ih =>
    unfold splitOpen? at h
    split at h
    · rename_i hc
      cases h
      rw [hc.2]
    · split at h
      · simp at h
      · simpa using ih h

theorem splitClose_append (read : List Char) (depth : Nat) (open_ : Option Char) (cs : List Char) :
    (splitClose read depth open_ cs).1.reverse ++ (splitClose read depth open_ cs).2 =
      read.reverse ++ cs := by
  induction cs generalizing read depth open_ with
  | nil => simp [splitClose]
  | cons c cs ih =>
    unfold splitClose
    split
    · exact (ih _ _ _).trans (by simp)
    · split
      · exact (ih _ _ _).trans (by simp)
      · split
        · split
          · rfl
          · exact (ih _ _ _).trans (by simp)
        · exact (ih _ _ _).trans (by simp)

/-- `CREATE TABLE` as words. -/
def createTablePattern : List Pattern :=
  [.all [.wordEdge, .word "CREATE", .gap,
    .optional (.first [.seq (.word "TEMP") .gap, .seq (.word "TEMPORARY") .gap]),
    .word "TABLE", .wordEdge]]

/-- The text with every table repaired. Reading goes on at the parenthesis that closes a table, or
after the words if no column list follows them. -/
def repairTables (types : TypeWords) (quoteMark : Char) (before : Option Char) (cs : List Char) :
    List Char :=
  match _h : search? createTablePattern [] before 0 cs with
  | none => cs
  | some (passed, parts) =>
    let found := parts.flatten
    let rest := cs.drop (passed.length + found.length)
    if found.isEmpty then cs
    else match _g : splitOpen? [] none rest with
      | none => passed.reverse ++ found ++ repairTables types quoteMark found.getLast? rest
      | some (header, body) =>
        let r := splitClose [] 0 none body
        passed.reverse ++ found ++ repairHeader quoteMark header.reverse ++
          '(' :: repairBody types quoteMark r.1.reverse ++ repairTables types quoteMark none r.2
termination_by cs.length
decreasing_by
  all_goals
    rename_i hne
    obtain ⟨tail, ht⟩ := eq_append_of_search _h
    have hl := congrArg List.length ht
    have hpos : 0 < parts.flatten.length :=
      List.length_pos_iff.2 fun he => hne (List.isEmpty_iff.2 he)
    simp only [List.reverse_nil, List.nil_append, List.length_append, List.length_reverse] at hl
    have hrest : (cs.drop (passed.length + parts.flatten.length)).length < cs.length := by
      simp only [List.length_drop]
      omega
  · exact hrest
  · have h1 := congrArg List.length (splitOpen_append _g)
    have h2 := congrArg List.length (splitClose_append [] 0 none body)
    simp only [List.reverse_nil, List.nil_append, List.length_append, List.length_cons,
      List.length_reverse] at h1 h2
    have : (splitClose [] 0 none body).2.length <
        (cs.drop (passed.length + parts.flatten.length)).length := by
      have h0 : rest = cs.drop (passed.length + parts.flatten.length) := rfl
      rw [← h0]
      omega
    exact Nat.lt_trans this hrest

end DdlGraph.Repair
