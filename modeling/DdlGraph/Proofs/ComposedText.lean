import DdlGraph.Proofs.InertText
import DdlGraph.Proofs.StatementText

/-!
# Texts of pieces and words

A script is made of the names, literals, types and actions of a graph (`itemPieces`,
`addedKeyPieces`), and of words around them. What holds of the pieces and of the words, and is kept
when these are put together (`Composes`), holds of every text in a script.

* `Composes.item`, `Composes.enum`, `Composes.index`, `Composes.addedKey`: the texts of a script;
* `composes_calm`, `composes_balanced`, `composes_not_mem`: what is kept;
* `composes_comments`, `composes_keys`, `composes_tables`, `composes_targets`: what repairs do not
  find.
-/

namespace DdlGraph.Repair

open DdlGraph.Text DdlGraph.Sql DdlGraph.Ddl

/-! ## Pieces -/

/-- The names and actions in the text of a foreign key. -/
def keyPieces (s : Settings) (k : KeySpec) : List String :=
  [quote s k.targetTable, quote s k.targetColumn] ++ k.onDelete.toList ++ k.onUpdate.toList

/-- What stands in the text of a clause besides its words. -/
def clausePieces (s : Settings) : Clause → List String
  | .type text | .countingKey text | .default text => [text]
  | .notNull | .unique | .primaryKey => []
  | .references k => keyPieces s k

/-- What stands in the text of an item besides its words. -/
def itemPieces (s : Settings) : Item → List String
  | .column title clauses => quote s title :: clauses.flatMap (clausePieces s)
  | .primaryKey titles => titles.map (quote s)
  | .foreignKey k => quote s k.sourceColumn :: keyPieces s k

def enumPieces (s : Settings) (e : Enumeration) : List String :=
  quote s e.name :: e.values.map (stringLiteral s.dialect)

def indexPieces (s : Settings) (t : Table) (c : Column) : List String :=
  [quote s (indexName t c), quote s t.name, quote s c.title]

def addedKeyPieces (s : Settings) (name : String) (k : KeySpec) : List String :=
  quote s k.sourceTable :: quote s name :: quote s k.sourceColumn :: keyPieces s k

/-! ## Texts that are put together -/

/-- The words of a script behind which, or in front of which, a piece or another word stands. -/
def scriptWords : List String :=
  ["ON DELETE", "ON UPDATE", "DEFAULT", "NOT NULL", "UNIQUE", "PRIMARY KEY",
    "PRIMARY KEY AUTOINCREMENT", "FOREIGN KEY", "ADD CONSTRAINT", "CREATE TYPE", "AS ENUM",
    "CREATE INDEX", "IF NOT EXISTS", "ON"]

/-- A list in parentheses, behind a text. -/
def withList (xs : List Char) (texts : List (List Char)) : List Char :=
  xs ++ '(' :: ([',', ' '].intercalate texts ++ [')'])

/-- What stands before the name of an index. -/
def indexMark (s : Settings) : List Char :=
  if s.dialect = .mysql then [] else "IF NOT EXISTS".toList ++ [' ']

theorem toList_indexText (s : Settings) (t : Table) (c : Column) : (indexText s t c).toList =
    withList ("CREATE INDEX".toList ++ ' ' :: (indexMark s ++ (quote s (indexName t c)).toList) ++
      ' ' :: ("ON".toList ++ ' ' :: ((quote s t.name).toList ++ [' '])))
      [(quote s c.title).toList] ++ [';', '\n'] := by
  have hcreate : "CREATE INDEX ".toList = "CREATE INDEX".toList ++ [' '] := rfl
  have hon : " ON ".toList = ' ' :: ("ON".toList ++ [' ']) := rfl
  have hopen : " (".toList = [' ', '('] := rfl
  have hend : ");\n".toList = [')', ';', '\n'] := rfl
  have hmark : (if s.dialect = .mysql then "" else "IF NOT EXISTS ").toList = indexMark s := by
    unfold indexMark
    split <;> rfl
  -- no name may be unfolded to see whether it is one of the words
  unfold indexText
  generalize quote s (indexName t c) = index, quote s t.name = table, quote s c.title = column
  rw [← hmark]
  generalize (if s.dialect = .mysql then "" else "IF NOT EXISTS ") = mark
  simp only [withList, String.toList_append, hcreate, hon, hopen, hend,
    List.intercalate_singleton, List.append_assoc, List.cons_append, List.nil_append]

/-- A statement that adds a key, behind `ALTER TABLE`. -/
def addedKeyText (s : Settings) (name : String) (k : KeySpec) : List Char :=
  withList ((quote s k.sourceTable).toList ++
      ' ' :: ("ADD CONSTRAINT".toList ++ ' ' :: (quote s name).toList) ++
      ' ' :: ("FOREIGN KEY".toList ++ [' '])) [(quote s k.sourceColumn).toList] ++
    ' ' :: (referencesText s k).toList

theorem toList_addKeyText (s : Settings) (name : String) (k : KeySpec) :
    (addKeyText s name k).toList =
      "ALTER TABLE".toList ++ ' ' :: (addedKeyText s name k ++ [';', '\n']) := by
  have halter : "ALTER TABLE ".toList = "ALTER TABLE".toList ++ [' '] := rfl
  have hadd : " ADD CONSTRAINT ".toList = ' ' :: ("ADD CONSTRAINT".toList ++ [' ']) := rfl
  have hforeign : " FOREIGN KEY (".toList = ' ' :: ("FOREIGN KEY".toList ++ [' ', '(']) := rfl
  have hclose : ") ".toList = [')', ' '] := rfl
  have hend : ";\n".toList = [';', '\n'] := rfl
  unfold addKeyText addedKeyText
  generalize quote s k.sourceTable = table, quote s name = constraint,
    quote s k.sourceColumn = column, referencesText s k = references
  simp only [withList, String.toList_append, halter, hadd, hforeign, hclose, hend,
    List.intercalate_singleton, List.append_assoc, List.cons_append, List.nil_append]

/-- **What holds of a text that is put together** of the pieces in `I`: it holds of these and of the
words, and is kept by a blank between two texts, a list in parentheses, and the target of a foreign
key. -/
structure Composes (s : Settings) (I : String → Prop) (P : List Char → Prop) : Prop where
  nil : P []
  piece : ∀ {text}, I text → P text.toList
  word : ∀ w ∈ scriptWords, P w.toList
  blank : ∀ {xs ys}, P xs → P ys → P (xs ++ ' ' :: ys)
  list : ∀ {xs texts}, P xs → (∀ x ∈ texts, P x) → P (withList xs texts)
  target : ∀ {name column}, I (quote s name) → P column →
    P ("REFERENCES ".toList ++ withList (quote s name).toList [column])

namespace Composes

variable {s : Settings} {I : String → Prop} {P : List Char → Prop}

theorem blanks (h : Composes s I P) {xs : List Char} (hx : P xs) (n : Nat) :
    P (List.replicate n ' ' ++ xs) := by
  induction n with
  | zero => exact hx
  | succ n ih => exact h.blank h.nil ih

theorem join (h : Composes s I P) {texts : List String} (ht : ∀ t ∈ texts, P t.toList) :
    P (Text.join " " texts).toList := by
  unfold Text.join
  rw [String.toList_intercalate]
  induction texts with
  | nil => exact h.nil
  | cons t texts ih =>
    obtain ⟨hfirst, hrest⟩ := List.forall_mem_cons.1 ht
    cases texts with
    | nil => simpa using hfirst
    | cons next texts =>
      rw [List.map_cons, List.map_cons, List.intercalate_cons_cons, List.append_assoc]
      exact h.blank hfirst (ih hrest)

theorem names (h : Composes s I P) {xs : List Char} (hx : P xs) {texts : List String}
    (ht : ∀ t ∈ texts, I t) : P (xs ++ '(' :: ((Text.join ", " texts).toList ++ [')'])) := by
  unfold Text.join
  rw [String.toList_intercalate]
  refine h.list hx fun x hm => ?_
  obtain ⟨t, htext, rfl⟩ := List.mem_map.1 hm
  exact h.piece (ht t htext)

variable (h : Composes s I P)

include h

/-- **Declarations of enumerations.** -/
theorem enum {e : Enumeration} (he : ∀ p ∈ enumPieces s e, I p) :
    ∃ xs, (enumText s e).toList = xs ++ [';', '\n'] ∧ P xs := by
  obtain ⟨hname, hvalues⟩ := List.forall_mem_cons.1 he
  have hcreate := h.blank (h.word "CREATE TYPE" (by decide)) (h.piece hname)
  have henum := h.blank (h.word "AS ENUM" (by decide)) h.nil
  refine ⟨_, ?_, h.names (h.blank hcreate henum) hvalues⟩
  unfold enumText Ddl.stringList
  simp

/-- **Indexes.** -/
theorem index {t : Table} {c : Column} (hc : ∀ p ∈ indexPieces s t c, I p) :
    ∃ xs, (indexText s t c).toList = xs ++ [';', '\n'] ∧ P xs := by
  simp only [indexPieces, List.mem_cons, List.not_mem_nil, or_false, forall_eq_or_imp,
    forall_eq] at hc
  obtain ⟨hname, htable, hcolumn⟩ := hc
  have hindex := h.word "CREATE INDEX" (by decide)
  have hcreate : P ("CREATE INDEX".toList ++
      ' ' :: (indexMark s ++ (quote s (indexName t c)).toList)) := by
    refine h.blank hindex ?_
    unfold indexMark
    split
    · exact h.piece hname
    · rw [List.append_assoc]
      exact h.blank (h.word "IF NOT EXISTS" (by decide)) (h.piece hname)
  have hon := h.blank (h.word "ON" (by decide)) (h.blank (h.piece htable) h.nil)
  have hlist : P (withList _ [(quote s c.title).toList]) :=
    h.list (h.blank hcreate hon) fun x hx => List.mem_singleton.1 hx ▸ h.piece hcolumn
  exact ⟨_, toList_indexText s t c, hlist⟩

theorem references {k : KeySpec} (hk : ∀ p ∈ keyPieces s k, I p) :
    P (referencesText s k).toList := by
  obtain ⟨sourceTable, sourceColumn, targetTable, targetColumn, onDelete, onUpdate⟩ := k
  simp only [keyPieces, List.mem_append, List.mem_cons, List.not_mem_nil, or_false,
    Option.mem_toList, forall_eq, or_imp, forall_and] at hk
  obtain ⟨⟨⟨htable, hcolumn⟩, hdelete⟩, hupdate⟩ := hk
  have haction : ∀ {xs : List Char} (event : String) {action : String}, event ∈ scriptWords → P xs →
      I action → P (xs ++ ' ' :: (event.toList ++ ' ' :: action.toList)) :=
    fun event _ he hx ha => h.blank hx (h.blank (h.word event he) (h.piece ha))
  have htarget := h.target htable (h.piece hcolumn)
  have htext : (referencesText s ⟨sourceTable, sourceColumn, targetTable, targetColumn, none,
      none⟩).toList = "REFERENCES ".toList ++
        withList (quote s targetTable).toList [(quote s targetColumn).toList] := by
    unfold referencesText withList
    simp
  rw [← htext] at htarget
  have hdeleted : P (referencesText s ⟨sourceTable, sourceColumn, targetTable, targetColumn,
      onDelete, none⟩).toList := by
    cases onDelete with
    | none => exact htarget
    | some action =>
      have hd := haction "ON DELETE" (by decide) htarget (hdelete action rfl)
      unfold referencesText at hd ⊢
      simpa using hd
  cases onUpdate with
  | none => exact hdeleted
  | some action =>
    have hu := haction "ON UPDATE" (by decide) hdeleted (hupdate action rfl)
    unfold referencesText at hu ⊢
    simpa using hu

theorem clause {c : Clause} (hc : ∀ p ∈ clausePieces s c, I p) : P (c.text s).toList := by
  cases c with
  | type text => exact h.piece (hc text (.head _))
  | countingKey text =>
    have hword := h.word "PRIMARY KEY AUTOINCREMENT" (by decide)
    rw [Clause.text, String.toList_append]
    exact h.blank (h.piece (hc text (.head _))) hword
  | default text =>
    have hword := h.word "DEFAULT" (by decide)
    rw [Clause.text, String.toList_append]
    exact h.blank hword (h.piece (hc text (.head _)))
  | notNull => exact h.word "NOT NULL" (by decide)
  | unique => exact h.word "UNIQUE" (by decide)
  | primaryKey => exact h.word "PRIMARY KEY" (by decide)
  | references k => exact h.references hc

/-- **Items.** -/
theorem item {i : Item} (hi : ∀ p ∈ itemPieces s i, I p) (width : Nat) :
    P (i.text s width).toList := by
  cases i with
  | column title clauses =>
    obtain ⟨htitle, hclauses⟩ := List.forall_mem_cons.1 hi
    have hjoin : P (Text.join " " (clauses.map (Clause.text s))).toList := by
      refine h.join fun t ht => ?_
      obtain ⟨c, hc, rfl⟩ := List.mem_map.1 ht
      exact h.clause fun p hp => hclauses p (List.mem_flatMap.2 ⟨c, hc, hp⟩)
    have hall := h.blank (h.piece htitle) (h.blanks hjoin (width - Text.width (quote s title)))
    rw [← List.cons_append, ← List.replicate_succ, List.replicate_succ'] at hall
    unfold Item.text
    simpa using hall
  | primaryKey titles =>
    have hword := h.blank (h.word "PRIMARY KEY" (by decide)) h.nil
    have hall := h.names hword (show ∀ t ∈ titles.map (quote s), I t from hi)
    unfold Item.text
    simpa using hall
  | foreignKey k =>
    obtain ⟨hcolumn, hkey⟩ := List.forall_mem_cons.1 hi
    have hword := h.blank (h.word "FOREIGN KEY" (by decide)) h.nil
    have hlist : P (withList _ [(quote s k.sourceColumn).toList]) :=
      h.list hword fun x hx => List.mem_singleton.1 hx ▸ h.piece hcolumn
    have hall := h.blank hlist (h.references hkey)
    unfold Item.text
    unfold withList at hall
    simpa using hall

/-- **Keys that are added.** -/
theorem addedKey {name : String} {k : KeySpec} (hk : ∀ p ∈ addedKeyPieces s name k, I p) :
    P (addedKeyText s name k) := by
  simp only [addedKeyPieces, List.forall_mem_cons] at hk
  obtain ⟨htable, hname, hcolumn, hkey⟩ := hk
  have hconstraint := h.blank (h.word "ADD CONSTRAINT" (by decide)) (h.piece hname)
  have hforeign := h.blank (h.word "FOREIGN KEY" (by decide)) h.nil
  have hfront := h.blank (h.blank (h.piece htable) hconstraint) hforeign
  have hlist : P (withList _ [(quote s k.sourceColumn).toList]) :=
    h.list hfront fun x hx => List.mem_singleton.1 hx ▸ h.piece hcolumn
  exact h.blank hlist (h.references hkey)

end Composes

/-! ## What is kept -/

theorem Calm.withList {ps : List Pattern} {xs : List Char} (h : Calm ps xs)
    {texts : List (List Char)} (ht : ∀ x ∈ texts, Calm ps x) (hnil : Calm ps []) :
    Calm ps (withList xs texts) := by
  refine h.append (by decide) ?_
  induction texts with
  | nil => exact calm_of_quiet hnil (hnil ')' (by decide))
  | cons x texts ih =>
    obtain ⟨hx, hmore⟩ := List.forall_mem_cons.1 ht
    cases texts with
    | nil =>
      rw [List.intercalate_singleton]
      exact calm_of_quiet hnil (hx ')' (by decide))
    | cons y texts =>
      rw [List.intercalate_cons_cons, List.append_assoc, List.append_assoc]
      have hrest := hnil.append (show ' ' ∈ breaks by decide) (ih hmore)
      exact hx.append (by decide) hrest

/-- **Calm texts are put together to calm texts.** -/
theorem composes_calm {s : Settings} {I : String → Prop} {ps : List Pattern} (hnil : Calm ps [])
    (hpiece : ∀ {text}, I text → Calm ps text.toList) (hword : ∀ w ∈ scriptWords, Calm ps w.toList)
    (htarget : ∀ {name}, Calm ps (quote s name).toList →
      Quiet (Matches ps) ("REFERENCES ".toList ++ ((quote s name).toList ++ ['(']))) :
    Composes s I (Calm ps) where
  nil := hnil
  piece := hpiece
  word := hword
  blank h h' := h.append (by decide) h'
  list h ht := h.withList ht hnil
  target := by
    intro name column hname hcolumn d hd
    have hall := (htarget (hpiece hname)).append ((hcolumn ')' (by decide)).append (hnil d hd))
    simpa [withList] using hall

/-- What ends a line or a statement, or begins a mark, stands in no text that is put together. -/
theorem composes_not_mem (s : Settings) {I : String → Prop} {x : Char}
    (hx : x = '\n' ∨ x = '\x00' ∨ x = ';') (hpiece : ∀ {text}, I text → x ∉ text.toList) :
    Composes s I (x ∉ ·) := by
  have hwords : ∀ w ∈ "REFERENCES " :: scriptWords, x ∉ w.toList := by
    rcases hx with rfl | rfl | rfl <;> decide
  have hmarks : x ∉ [' ', '(', ')', ','] := by
    rcases hx with rfl | rfl | rfl <;> decide
  simp only [List.mem_cons, List.not_mem_nil, or_false, not_or] at hmarks
  obtain ⟨hblank, hopen, hclose, hcomma⟩ := hmarks
  have hlist : ∀ {xs : List Char} {texts : List (List Char)}, x ∉ xs → (∀ t ∈ texts, x ∉ t) →
      x ∉ withList xs texts := by
    intro xs texts h ht hmem
    simp only [withList, List.mem_append, List.mem_cons, List.not_mem_nil, or_false] at hmem
    rcases hmem with hmem | hmem | hmem | hmem
    · exact h hmem
    · exact hopen hmem
    · rcases mem_of_mem_intercalate hmem with hsep | ⟨t, htext, hmem⟩
      · simp only [List.mem_cons, List.not_mem_nil, or_false] at hsep
        exact hsep.elim hcomma hblank
      · exact ht t htext hmem
    · exact hclose hmem
  exact {
    nil := List.not_mem_nil
    piece := hpiece
    word := fun w hw => hwords w (.tail _ hw)
    blank := fun h h' hmem => (List.mem_append.1 hmem).elim h fun hmem =>
      (List.mem_cons.1 hmem).elim hblank h'
    list := hlist
    target := fun hname hcolumn hmem => (List.mem_append.1 hmem).elim (hwords _ (.head _))
      (hlist (hpiece hname) fun t ht => List.mem_singleton.1 ht ▸ hcolumn) }

theorem balanced_withList {xs : List Char} {texts : List (List Char)}
    (h : balanced 0 none xs = true) (ht : ∀ t ∈ texts, balanced 0 none t = true) :
    balanced 0 none (withList xs texts) = true := by
  have hinside : balanced 1 none ([',', ' '].intercalate texts ++ [')']) = true := by
    induction texts with
    | nil => rfl
    | cons t texts ih =>
      obtain ⟨htext, hmore⟩ := List.forall_mem_cons.1 ht
      cases texts with
      | nil =>
        rw [List.intercalate_singleton, ← Nat.add_zero 1, balanced_append htext 1]
        rfl
      | cons next texts =>
        rw [List.intercalate_cons_cons, List.append_assoc, List.append_assoc, ← Nat.add_zero 1,
          balanced_append htext 1]
        exact ih hmore
  rw [withList, ← Nat.zero_add 0, balanced_append h 0]
  exact hinside

/-- **Balanced texts are put together to balanced texts.** -/
theorem composes_balanced (s : Settings) : Composes s InertInside (balanced 0 none · = true) where
  nil := rfl
  piece h := h.balanced
  word := by decide
  blank := by
    intro xs ys h h'
    rw [← Nat.zero_add 0, balanced_append h 0]
    exact h'
  list := balanced_withList
  target := by
    intro name column hname hcolumn
    have hword : balanced 0 none "REFERENCES ".toList = true := rfl
    rw [← Nat.zero_add 0, balanced_append hword 0]
    exact balanced_withList hname.balanced fun t ht => List.mem_singleton.1 ht ▸ hcolumn

/-! ## What repairs do not find -/

/-- Patterns that begin with no word of a script, nor with `REFERENCES`. -/
theorem composes_of_calm (s : Settings) {I : String → Prop} {ps : List Pattern}
    (hpiece : ∀ {text}, I text → Calm ps text.toList)
    (hwords : ∀ w ∈ "" :: "REFERENCES" :: scriptWords, Calm ps w.toList) :
    Composes s I (Calm ps) := by
  obtain ⟨hnil, hreferences, hwords⟩ := by simpa only [List.forall_mem_cons] using hwords
  refine composes_calm hnil hpiece hwords fun hname => ?_
  have hword : "REFERENCES ".toList = "REFERENCES".toList ++ [' '] := rfl
  rw [hword]
  exact (hreferences ' ' (by decide)).append (hname '(' (by decide))

theorem composes_of_free (s : Settings) {I : String → Prop} {ps : List Pattern} {ls : List Lead}
    (h : LedBy ps ls) (hls : ls ⊆ repairLeads) (hpiece : ∀ {text}, I text → Calm ps text.toList)
    (hf : ∀ w ∈ "" :: "REFERENCES" :: scriptWords, ∀ l ∈ ls,
      l.free none (w.toList ++ [' ']) = true) : Composes s I (Calm ps) :=
  composes_of_calm s hpiece fun w hw => calm_of_free h hls (hf w hw)

theorem composes_comments (s : Settings) {I : String → Prop} (hI : ∀ {text}, I text → Inert text) :
    Composes s I (Calm commentPattern) :=
  composes_of_free s ledBy_comment (by simp [repairLeads]) (fun h => (hI h).comments)
    (by decide)

theorem composes_keys (s : Settings) {I : String → Prop} (hI : ∀ {text}, I text → Inert text) :
    Composes s I (Calm addedKeyPattern) :=
  composes_of_free s ledBy_addedKey (by simp [repairLeads]) (fun h => (hI h).keys)
    (by decide)

theorem composes_statements (s : Settings) : Composes s InertKey (Calm alterPattern) :=
  composes_of_free s ledBy_alter (by simp [repairLeads]) (fun h => h.statements)
    (by decide)

/-- Neither a type nor an index is a table. -/
theorem not_matches_createTable {w : String} (hw : w = "CREATE TYPE" ∨ w = "CREATE INDEX")
    (before : Option Char) (rest : List Char) :
    ¬Matches createTablePattern before (w.toList ++ rest) := by
  rintro ⟨taken, parts, hm⟩
  obtain ⟨ends, he, -⟩ := Option.map_eq_some_iff.1 hm
  have hrun : Pattern.run .wordEdge _ _ = some ends := he
  rw [Pattern.run] at hrun
  split at hrun
  · rcases hw with rfl | rfl <;> cases hrun
  · cases hrun

theorem calm_create {w : String} (hw : w = "CREATE TYPE" ∨ w = "CREATE INDEX") :
    Calm createTablePattern w.toList := by
  intro d hd
  have hfree : ∀ w ∈ ["CREATE TYPE", "CREATE INDEX"], (breaks.all fun d =>
      (Lead.word "CREATE").passed (some 'C') (w.toList.tail ++ [d])) = true := by
    decide
  have hmem : w ∈ ["CREATE TYPE", "CREATE INDEX"] := by
    rcases hw with rfl | rfl <;> simp
  have hcons : w.toList = 'C' :: w.toList.tail := by
    rcases hw with rfl | rfl <;> rfl
  have hnot := not_matches_createTable hw
  rw [hcons] at hnot ⊢
  have hquiet : Quiet (Matches createTablePattern) ('C' :: (w.toList.tail ++ [d] ++ [])) := by
    refine LedBy.quiet_cons ledBy_createTable (fun before rest => ?_)
      (fun l hl => List.mem_singleton.1 hl ▸ List.all_eq_true.1 (hfree w hmem) d hd) Quiet.nil
    rw [List.append_assoc]
    exact hnot before (d :: rest)
  rwa [List.append_nil] at hquiet

theorem composes_tables (s : Settings) {I : String → Prop}
    (hI : ∀ {text}, I text → InertBetween text) : Composes s I (Calm createTablePattern) := by
  have hfree : ∀ w ∈ "" :: "REFERENCES" :: scriptWords, w = "CREATE TYPE" ∨ w = "CREATE INDEX" ∨
      ∀ l ∈ [Lead.word "CREATE"], l.free none (w.toList ++ [' ']) = true := by
    decide
  have hcalm : ∀ w ∈ "" :: "REFERENCES" :: scriptWords, Calm createTablePattern w.toList := by
    intro w hw
    rcases hfree w hw with h | h | h
    · exact calm_create (.inl h)
    · exact calm_create (.inr h)
    · exact calm_of_free ledBy_createTable (by simp [repairLeads]) h
  exact composes_of_calm s (fun h => (hI h).tables) hcalm

/-! ## Targets of foreign keys -/

/-- **A name as it is written**: bare if it is plain, or between quote marks. -/
theorem quote_cases (s : Settings) (name : String) :
    (s.caseSensitive = false ∧ quote s name = name ∧
      isPlainIdentifier (.ofList (quote s name).toList) = true) ∨
    (quote s name).toList = s.dialect.quoteMark ::
      (doubled s.dialect.quoteMark name.toList ++ [s.dialect.quoteMark]) := by
  unfold quote
  split
  · rename_i h
    rw [Bool.and_eq_true, Bool.not_eq_true'] at h
    rw [String.ofList_toList]
    exact .inl ⟨h.1, rfl, h.2⟩
  · exact .inr String.toList_ofList

/-- A name begins with no blank. -/
theorem exists_quote_cons (s : Settings) (name : String) :
    ∃ c cs, (quote s name).toList = c :: cs ∧ isBlank c = false := by
  rcases quote_cases s name with ⟨-, -, hplain⟩ | hquoted
  · obtain ⟨c, cs, hcons, -⟩ := exists_of_plain hplain
    exact ⟨c, cs, hcons, notBlank_of_plain hplain c (hcons ▸ .head _)⟩
  · refine ⟨_, _, hquoted, ?_⟩
    rcases aroundNames_quoteMark s.dialect with h | h <;> rw [h] <;> decide

/-- **A name that is written is one word**, or in quotes: several bare words do not begin with
it. -/
theorem not_takes_quote {s : Settings} {name : String} {w rest more : List Char}
    (hw : (Pattern.all [bareWord, nextBareWord, .many nextBareWord]).Takes w)
    (he : (quote s name).toList ++ '(' :: rest = w ++ more) : False := by
  obtain ⟨v, w', rfl, ⟨_, vs, rfl, ⟨c, rfl, hc⟩, hvs⟩, hw'⟩ := hw.all_cons
  obtain ⟨_, w'', rfl, ⟨_, _, rfl, ⟨_, _, rfl, ⟨b, rfl, hb⟩, -⟩, -⟩, -⟩ := hw'.all_cons
  have hblank := isBlank_of_isInlineBlank hb
  simp only [List.append_assoc, List.cons_append, List.nil_append] at he
  rcases quote_cases s name with ⟨-, -, hplain⟩ | hquoted
  · have hword : '(' ∉ c :: vs := by
      rintro (_ | ⟨_, hmem⟩)
      · exact absurd hc (by decide)
      · exact absurd (hvs _ hmem) (by decide)
    have hname : b ∉ (quote s name).toList := fun hmem => by
      have hn := notBlank_of_plain hplain b hmem
      rw [hblank] at hn
      cases hn
    rw [← List.cons_append] at he
    rcases List.append_eq_append_iff.1 he with ⟨u, hv, hrest⟩ | ⟨u, hv, hrest⟩
    · cases u with
      | nil => exact absurd (List.cons.inj hrest).1 (by rintro rfl; cases hblank)
      | cons d u =>
        obtain ⟨rfl, -⟩ := List.cons.inj hrest
        exact hword (hv ▸ List.mem_append_right _ (.head _))
    · cases u with
      | nil => exact absurd (List.cons.inj hrest).1 (by rintro rfl; cases hblank)
      | cons d u =>
        obtain ⟨rfl, -⟩ := List.cons.inj hrest
        exact hname (hv ▸ List.mem_append_right _ (.head _))
  · rw [hquoted] at he
    obtain ⟨rfl, -⟩ := List.cons.inj he
    rcases aroundNames_quoteMark s.dialect with h | h <;> rw [h] at hc <;> cases hc

/-- **The target of a key is no name of several words.** -/
theorem not_matches_target (s : Settings) (name : String) (before : Option Char)
    (rest : List Char) : ¬Matches targetPattern before
      ("REFERENCES ".toList ++ ((quote s name).toList ++ '(' :: rest)) := by
  rintro ⟨taken, parts, hm⟩
  obtain ⟨after, htext⟩ := eq_append_of_matchAt hm
  obtain ⟨front, more, hfront, htakes, rfl⟩ :=
    List.forall₂_cons_left_iff.1 (takes_of_matchAt hm)
  obtain ⟨words, last, hwords, -, rfl⟩ := List.forall₂_cons_left_iff.1 htakes
  obtain ⟨_, v, rfl, rfl, hv⟩ := hfront.all_cons
  obtain ⟨u, v', rfl, hu, hv'⟩ := hv.all_cons
  obtain ⟨_, v'', rfl, ⟨_, blanks, rfl, ⟨b, rfl, hb⟩, hblanks⟩, hnil⟩ := hv'.all_cons
  obtain rfl : v'' = [] := List.eq_nil_iff_forall_not_mem.2 fun c hc => nomatch hnil c hc
  have hlength := (Pattern.takes_word (by decide) hu).length_eq
  have hword : "REFERENCES ".toList = "REFERENCES".toList ++ [' '] := rfl
  simp only [List.flatten_cons, List.nil_append, List.append_assoc, List.cons_append, hword]
    at htext
  obtain ⟨-, htext⟩ := List.append_inj htext hlength
  obtain ⟨-, htext⟩ := List.cons.inj htext
  cases blanks with
  | nil => exact not_takes_quote hwords htext
  | cons d blanks =>
    obtain ⟨c, cs, hname, hc⟩ := exists_quote_cons s name
    rw [hname] at htext
    obtain ⟨rfl, -⟩ := List.cons.inj htext
    rw [hblanks c (.head _)] at hc
    cases hc

theorem composes_targets (s : Settings) {I : String → Prop} (hI : ∀ {text}, I text → Inert text) :
    Composes s I (Calm targetPattern) := by
  have hcalm : ∀ w ∈ "" :: scriptWords, Calm targetPattern w.toList := by
    have hfree : ∀ w ∈ "" :: scriptWords, ∀ l ∈ [Lead.word "REFERENCES"],
        l.free none (w.toList ++ [' ']) = true := by
      decide
    exact fun w hw => calm_of_free ledBy_target (by simp [repairLeads]) (hfree w hw)
  refine composes_calm (hcalm "" (.head _)) (fun h => (hI h).targets)
    (fun w hw => hcalm w (.tail _ hw)) fun {name} hname => ?_
  have hcons : "REFERENCES ".toList = 'R' :: "EFERENCES ".toList := rfl
  have hpassed : (Lead.word "REFERENCES").passed (some 'R') "EFERENCES ".toList = true := by
    decide
  rw [hcons]
  refine LedBy.quiet_cons ledBy_target (fun before rest => ?_)
    (fun l hl => List.mem_singleton.1 hl ▸ hpassed) (hname '(' (by decide))
  have hnot := not_matches_target s name before rest
  rw [hcons] at hnot
  rwa [List.append_assoc]

end DdlGraph.Repair
