import DdlGraph.Proofs.UndisturbedGraph
import Mathlib.Data.List.Infix

/-!
# The dialect that a written text shows

The header of a text names the dialect that it is written in, but what the header of another dialect
would say counts before it, and is looked for in the whole text (`rivals`). So a text for PostgreSQL
or SQLite is taken for one of another dialect just if the graph or the time says such a phrase: in a
name, a literal, a type or an action (`pieces`), or in a bare name that runs on into the type behind
it (`columnHeads`). Texts for MySQL are always taken for such.

* `holds_iff_small`: phrases are looked for letter by letter;
* `Apart`, `apart_of_mem`: a phrase does not reach across the words between two pieces;
* `Phrase.script_iff`: a text says what its pieces say;
* `detect_script_iff`: when the dialect is the one that the text is written in.
-/

namespace DdlGraph.Ddl

open DdlGraph.Text DdlGraph.Sql DdlGraph.Repair

/-! ## Small forms -/

/-- The small form of a text, each letter by itself. -/
def small (cs : List Char) : List Char :=
  cs.flatMap lowerChar

theorem small_append (xs ys : List Char) : small (xs ++ ys) = small xs ++ small ys :=
  List.flatMap_append

/-- Both small forms of the letter sigma as one. -/
def oneSigma (c : Char) : Char :=
  if c = 'ς' then 'σ' else c

theorem map_oneSigma_lowerFrom (before cs : List Char) :
    (lowerFrom before cs).map oneSigma = (small cs).map oneSigma := by
  induction cs generalizing before with
  | nil => rfl
  | cons c cs ih =>
    have hletter : (if c = 'Σ' then if meetsCased before && !meetsCased cs then ['ς'] else ['σ']
        else lowerChar c).map oneSigma = (lowerChar c).map oneSigma := by
      split
      · rename_i hc
        have hsigma : (lowerChar 'Σ').map oneSigma = ['σ'] := by decide +kernel
        rw [hc, hsigma]
        split <;> rfl
      · rfl
    have hcons : small (c :: cs) = lowerChar c ++ small cs := rfl
    unfold lowerFrom
    dsimp only
    rw [List.map_append, hletter, ih, hcons, List.map_append]

/-- What has no sigma is in a text just if it is in the text with both sigmas as one. -/
theorem isInfix_map_oneSigma {p : List Char} (hp : 'ς' ∉ p ∧ 'σ' ∉ p) (cs : List Char) :
    p <:+: cs.map oneSigma ↔ p <:+: cs := by
  have hself : ∀ q : List Char, q.map oneSigma = p → q = p := by
    rintro q rfl
    refine (List.map_id q).symm.trans (List.map_congr_left fun c hc => ?_)
    unfold oneSigma
    split
    · rename_i h
      refine absurd (List.mem_map.2 ⟨c, hc, ?_⟩) hp.2
      rw [h]
      rfl
    · rfl
  constructor
  · rintro ⟨a, b, h⟩
    obtain ⟨ab, b', rfl, hab, -⟩ := List.map_eq_append_iff.1 h.symm
    obtain ⟨a', q, rfl, -, hq⟩ := List.map_eq_append_iff.1 hab
    exact ⟨a', b', by rw [hself q hq]⟩
  · intro h
    have hmap := h.map oneSigma
    have hsame : p.map oneSigma = p := by
      refine (List.map_congr_left fun c hc => ?_).trans (List.map_id p)
      have hne : c ≠ 'ς' := fun h => hp.1 (h ▸ hc)
      exact if_neg hne
    rwa [hsame] at hmap

/-- **Phrases are looked for letter by letter**: the small form at the end of a word does not
matter. -/
theorem holds_iff_small {p : List Char} (hp : 'ς' ∉ p ∧ 'σ' ∉ p) (cs : List Char) :
    holds p (lowerFrom [] cs) = true ↔ p <:+: small cs := by
  rw [holds_iff_isInfix, ← isInfix_map_oneSigma hp, map_oneSigma_lowerFrom,
    isInfix_map_oneSigma hp]

/-! ## Phrases across words -/

/-- The text says `p`, in small letters or not. -/
def Says (p : List Char) (text : String) : Prop :=
  p <:+: small text.toList

/-- **A phrase does not reach across `w`**: it is on one side of it. -/
def Apart (p : List Char) (w : String) : Prop :=
  ∀ xs ys, p <:+: xs ++ (small w.toList ++ ys) → p <:+: xs ∨ p <:+: ys

/-- The phrase is not in `w`, does not end in front of it or begin behind it with a part of it, and
has not all of it inside. -/
def isApart (p w : List Char) : Bool :=
  !holds p w && !holds w p &&
    w.inits.all (fun a => a.isEmpty || !a.isSuffixOf p) &&
    w.tails.all fun b => b.isEmpty || !b.isPrefixOf p

theorem apart_of_isApart {p : List Char} {w : String} (h : isApart p (small w.toList) = true) :
    Apart p w := by
  unfold isApart at h
  simp only [Bool.and_eq_true, Bool.not_eq_true', List.all_eq_true, List.mem_inits, List.mem_tails,
    Bool.or_eq_true, List.isEmpty_iff] at h
  obtain ⟨⟨⟨hin, hover⟩, hfront⟩, hback⟩ := h
  have hin : ¬p <:+: small w.toList := fun h => Bool.eq_false_iff.1 hin (holds_iff_isInfix.2 h)
  have hover : ¬small w.toList <:+: p := fun h => Bool.eq_false_iff.1 hover (holds_iff_isInfix.2 h)
  intro xs ys hp
  rcases List.infix_append_iff.1 hp with h | h | ⟨s, t, hst, hs, ht⟩
  · exact .inl h
  · rcases List.infix_append_iff.1 h with h | h | ⟨s, t, hst, hs, ht⟩
    · exact absurd h hin
    · exact .inr h
    · rcases hback s hs with rfl | hnot
      · exact .inr (hst ▸ ht.isInfix)
      · refine absurd (List.isPrefixOf_iff_prefix.2 ?_) (Bool.eq_false_iff.1 hnot)
        exact hst ▸ List.prefix_append s t
  · rcases List.prefix_or_prefix_of_prefix ht (List.prefix_append (small w.toList) ys) with h | h
    · rcases hfront t h with rfl | hnot
      · rw [List.append_nil] at hst
        exact .inl (hst ▸ hs.isInfix)
      · refine absurd (List.isSuffixOf_iff_suffix.2 ?_) (Bool.eq_false_iff.1 hnot)
        exact hst ▸ List.suffix_append s t
    · refine absurd (h.isInfix.trans ?_) hover
      exact hst ▸ (List.suffix_append s t).isInfix

/-- The words of a script between two pieces. -/
def scriptMarks : List String :=
  ["\n", ", ", "(", ")", ") ", " (", "    ", ",\n", " (\n", ";\n", ");\n", "CREATE TYPE ",
    " AS ENUM (", "REFERENCES ", " REFERENCES ", " ON DELETE ", " ON UPDATE ", " DEFAULT ",
    " NOT NULL", " UNIQUE", " PRIMARY KEY", " PRIMARY KEY AUTOINCREMENT", "FOREIGN KEY (",
    "CREATE INDEX ", "CREATE INDEX IF NOT EXISTS ", " ON ", "CREATE TABLE IF NOT EXISTS ",
    "ALTER TABLE ", " ADD CONSTRAINT ", " FOREIGN KEY (", "-- Foreign Key Constraints\n"]

/-- **A phrase that no word of a script is a part of.** -/
structure Phrase (p : List Char) : Prop where
  ne_nil : p ≠ []
  apart : ∀ w ∈ scriptMarks, Apart p w

/-- The text ends a line. -/
def EndsLine (text : String) : Prop :=
  ∃ line, text = line ++ "\n"

/-- The text is made of lines. -/
def WholeLines (text : String) : Prop :=
  text = "" ∨ EndsLine text

theorem EndsLine.append {text : String} (h : EndsLine text) (front : String) :
    EndsLine (front ++ text) := by
  obtain ⟨line, rfl⟩ := h
  exact ⟨front ++ line, (String.append_assoc ..).symm⟩

theorem join_empty_cons (text : String) (texts : List String) :
    Text.join "" (text :: texts) = text ++ Text.join "" texts := by
  apply String.toList_inj.1
  simp only [toList_join_empty, String.toList_append, List.flatMap_cons]

theorem wholeLines_join {texts : List String} (h : ∀ text ∈ texts, EndsLine text) :
    WholeLines (Text.join "" texts) := by
  induction texts with
  | nil => exact .inl rfl
  | cons text texts ih =>
    obtain ⟨⟨line, rfl⟩, hmore⟩ := List.forall_mem_cons.1 h
    rw [join_empty_cons]
    rcases ih hmore with hnil | hends
    · rw [hnil, String.append_empty]
      exact .inr ⟨line, rfl⟩
    · exact .inr (hends.append _)

/-- One of the texts says `p`. -/
def SaysAny (p : List Char) (texts : List String) : Prop :=
  ∃ text ∈ texts, Says p text

section
variable {α : Type} {p : List Char}

theorem small_string_append (x y : String) :
    small (x ++ y).toList = small x.toList ++ small y.toList := by
  rw [String.toList_append, small_append]

theorem says_left {x : String} (hx : Says p x) (y : String) : Says p (x ++ y) := by
  unfold Says
  rw [small_string_append]
  exact hx.trans (List.prefix_append _ _).isInfix

theorem says_right (x : String) {y : String} (hy : Says p y) : Says p (x ++ y) := by
  unfold Says
  rw [small_string_append]
  exact hy.trans (List.suffix_append _ _).isInfix

@[simp] theorem saysAny_nil : ¬SaysAny p [] :=
  nofun

@[simp] theorem saysAny_cons (text : String) (texts : List String) :
    SaysAny p (text :: texts) ↔ Says p text ∨ SaysAny p texts := by
  simp only [SaysAny, List.mem_cons, exists_eq_or_imp]

@[simp] theorem saysAny_append (texts texts' : List String) :
    SaysAny p (texts ++ texts') ↔ SaysAny p texts ∨ SaysAny p texts' := by
  simp only [SaysAny, List.mem_append, or_and_right, exists_or]

theorem saysAny_map (f : α → String) (as : List α) :
    SaysAny p (as.map f) ↔ ∃ a ∈ as, Says p (f a) := by
  simp only [SaysAny, List.mem_map, exists_exists_and_eq_and]

theorem saysAny_flatMap (f : α → List String) (as : List α) :
    SaysAny p (as.flatMap f) ↔ ∃ a ∈ as, SaysAny p (f a) := by
  induction as with
  | nil => simp
  | cons a as ih => simp [ih]

end

section
variable {p : List Char} (h : Phrase p)
include h

theorem Phrase.not_empty : ¬Says p "" :=
  fun hs => h.ne_nil (List.eq_nil_of_infix_nil hs)

theorem Phrase.between (w : String) (hw : w ∈ scriptMarks) (x y : String) :
    Says p (x ++ (w ++ y)) ↔ Says p x ∨ Says p y := by
  constructor
  · unfold Says
    rw [small_string_append, small_string_append]
    exact h.apart w hw _ _
  · rintro (hx | hy)
    · exact says_left hx _
    · exact says_right _ (says_right _ hy)

theorem Phrase.behind (w : String) (hw : w ∈ scriptMarks) (y : String) :
    Says p (w ++ y) ↔ Says p y := by
  have hboth := h.between w hw "" y
  rwa [String.empty_append, or_iff_right h.not_empty] at hboth

theorem Phrase.before (w : String) (hw : w ∈ scriptMarks) (x : String) :
    Says p (x ++ w) ↔ Says p x := by
  have hboth := h.between w hw x ""
  rwa [String.append_empty, or_iff_left h.not_empty] at hboth

/-- Texts with a word between them. -/
theorem Phrase.join (w : String) (hw : w ∈ scriptMarks) (texts : List String) :
    Says p (Text.join w texts) ↔ SaysAny p texts := by
  induction texts with
  | nil => exact iff_of_false h.not_empty saysAny_nil
  | cons t texts ih =>
    cases texts with
    | nil => simp [Text.join]
    | cons u texts =>
      have hcons : Text.join w (t :: u :: texts) = t ++ (w ++ Text.join w (u :: texts)) := by
        apply String.toList_inj.1
        simp [Text.join]
      rw [hcons, h.between w hw, ih, saysAny_cons t]

/-- A phrase does not reach across the end of a line. -/
theorem Phrase.append_of_wholeLines {x : String} (hx : WholeLines x) (y : String) :
    Says p (x ++ y) ↔ Says p x ∨ Says p y := by
  rcases hx with rfl | ⟨line, rfl⟩
  · rw [String.empty_append, or_iff_right h.not_empty]
  · rw [String.append_assoc, h.between "\n" (by decide), h.before "\n" (by decide)]

/-- Lines one after the other. -/
theorem Phrase.lines {texts : List String} (hlines : ∀ t ∈ texts, EndsLine t) :
    Says p (Text.join "" texts) ↔ SaysAny p texts := by
  induction texts with
  | nil => exact iff_of_false h.not_empty saysAny_nil
  | cons t texts ih =>
    obtain ⟨hline, hmore⟩ := List.forall_mem_cons.1 hlines
    rw [join_empty_cons, h.append_of_wholeLines (.inr hline), ih hmore, saysAny_cons]

end

/-! ## Texts of pieces -/

/-- An action of a foreign key, behind its event. -/
def actionText (event : String) : Option String → String
  | some action => event ++ action
  | none => ""

/-- What follows the type of a column. -/
def Clause.Modifies : Clause → Prop
  | .type _ | .countingKey _ => False
  | _ => True

section
variable {p : List Char} (h : Phrase p) (s : Settings)
include h

/-- A declaration of an enumeration says what its name and its values say. -/
theorem Phrase.enum_iff (e : Enumeration) : Says p (enumText s e) ↔ SaysAny p (enumPieces s e) := by
  have htext : enumText s e = "CREATE TYPE " ++ (quote s e.name ++ (" AS ENUM (" ++
      (stringList s.dialect e.values ++ ");\n"))) := by
    unfold enumText
    simp only [String.append_assoc]
  unfold stringList at htext
  rw [htext, h.behind "CREATE TYPE " (by decide), h.between " AS ENUM (" (by decide),
    h.before ");\n" (by decide), h.join ", " (by decide), enumPieces, saysAny_cons]

/-- An index says what its names say. -/
theorem Phrase.index_iff (t : Table) (c : Column) :
    Says p (indexText s t c) ↔ SaysAny p (indexPieces s t c) := by
  have htext : ∃ w ∈ ["CREATE INDEX ", "CREATE INDEX IF NOT EXISTS "], indexText s t c =
      w ++ (quote s (indexName t c) ++ (" ON " ++ (quote s t.name ++ (" (" ++
        (quote s c.title ++ ");\n"))))) := by
    unfold indexText
    split
    · exact ⟨"CREATE INDEX ", by simp, by simp only [String.append_assoc, String.empty_append]⟩
    · refine ⟨"CREATE INDEX IF NOT EXISTS ", by simp, ?_⟩
      have hw : "CREATE INDEX IF NOT EXISTS " = "CREATE INDEX " ++ "IF NOT EXISTS " := rfl
      simp only [hw, String.append_assoc]
  obtain ⟨w, hw, htext⟩ := htext
  have hmarks : ∀ w ∈ ["CREATE INDEX ", "CREATE INDEX IF NOT EXISTS "], w ∈ scriptMarks := by
    decide
  rw [htext, h.behind w (hmarks w hw), h.between " ON " (by decide), h.between " (" (by decide),
    h.before ");\n" (by decide)]
  simp [indexPieces]

theorem Phrase.action_iff (w : String) (hw : w ∈ scriptMarks) (front : String) (o : Option String) :
    Says p (front ++ actionText w o) ↔ Says p front ∨ SaysAny p o.toList := by
  unfold actionText
  cases o with
  | none => simp
  | some action => simpa using h.between w hw front action

/-- A foreign key says what its names and its actions say, and so does what follows
`REFERENCES`. -/
theorem Phrase.references_iff (k : KeySpec) : ∃ text, referencesText s k = "REFERENCES " ++ text ∧
    (Says p text ↔ SaysAny p (keyPieces s k)) := by
  refine ⟨(quote s k.targetTable ++ ("(" ++ (quote s k.targetColumn ++ ")"))) ++
    actionText " ON DELETE " k.onDelete ++ actionText " ON UPDATE " k.onUpdate, ?_, ?_⟩
  · have htext : referencesText s k = "REFERENCES " ++ quote s k.targetTable ++ "(" ++
        quote s k.targetColumn ++ ")" ++ actionText " ON DELETE " k.onDelete ++
          actionText " ON UPDATE " k.onUpdate := rfl
    rw [htext]
    simp only [String.append_assoc]
  · rw [h.action_iff " ON UPDATE " (by decide), h.action_iff " ON DELETE " (by decide),
      h.between "(" (by decide), h.before ")" (by decide)]
    simp [keyPieces, or_assoc]

/-- A statement that adds a key. -/
theorem Phrase.addedKey_iff (name : String) (k : KeySpec) :
    Says p (addKeyText s name k) ↔ SaysAny p (addedKeyPieces s name k) := by
  obtain ⟨text, hreferences, htext⟩ := h.references_iff s k
  have hkey : addKeyText s name k = "ALTER TABLE " ++ (quote s k.sourceTable ++
      (" ADD CONSTRAINT " ++ (quote s name ++ (" FOREIGN KEY (" ++ (quote s k.sourceColumn ++
        (") " ++ ("REFERENCES " ++ (text ++ ";\n")))))))) := by
    unfold addKeyText
    rw [hreferences]
    simp only [String.append_assoc]
  rw [hkey, h.behind "ALTER TABLE " (by decide), h.between " ADD CONSTRAINT " (by decide),
    h.between " FOREIGN KEY (" (by decide), h.between ") " (by decide),
    h.behind "REFERENCES " (by decide), h.before ";\n" (by decide), htext]
  simp [addedKeyPieces]

theorem Phrase.modifier_iff {c : Clause} (hc : c.Modifies) (front : String) :
    Says p (front ++ (" " ++ c.text s)) ↔ Says p front ∨ SaysAny p (clausePieces s c) := by
  have hword : ∀ w ∈ [" NOT NULL", " UNIQUE", " PRIMARY KEY"], Says p (front ++ w) ↔
      Says p front ∨ SaysAny p [] := by
    have hmarks : ∀ w ∈ [" NOT NULL", " UNIQUE", " PRIMARY KEY"], w ∈ scriptMarks := by decide
    intro w hw
    rw [h.before w (hmarks w hw), or_iff_left saysAny_nil]
  cases c with
  | type => cases hc
  | countingKey => cases hc
  | default literal =>
    have htext : " " ++ Clause.text s (.default literal) = " DEFAULT " ++ literal :=
      (String.append_assoc ..).symm
    rw [htext, h.between " DEFAULT " (by decide)]
    simp [clausePieces]
  | notNull => exact hword " NOT NULL" (by decide)
  | unique => exact hword " UNIQUE" (by decide)
  | primaryKey => exact hword " PRIMARY KEY" (by decide)
  | references k =>
    obtain ⟨text, hreferences, htext⟩ := h.references_iff s k
    have hclause : " " ++ Clause.text s (.references k) = " REFERENCES " ++ text := by
      rw [Clause.text, hreferences]
      exact (String.append_assoc ..).symm
    rw [hclause, h.between " REFERENCES " (by decide), htext, clausePieces]

/-- Clauses behind the type of a column. -/
theorem Phrase.modifiers_iff {cs : List Clause} (hcs : ∀ c ∈ cs, c.Modifies) (front type : String) :
    Says p (front ++ Text.join " " (type :: cs.map (Clause.text s))) ↔
      Says p (front ++ type) ∨ SaysAny p (cs.flatMap (clausePieces s)) := by
  induction cs generalizing front type with
  | nil => simp [Text.join]
  | cons c cs ih =>
    obtain ⟨hc, hmore⟩ := List.forall_mem_cons.1 hcs
    have hcons : front ++ Text.join " " (type :: (c :: cs).map (Clause.text s)) =
        (front ++ type ++ " ") ++ Text.join " " (c.text s :: cs.map (Clause.text s)) := by
      apply String.toList_inj.1
      simp [Text.join]
    rw [hcons, ih hmore, String.append_assoc, h.modifier_iff s hc, List.flatMap_cons, saysAny_append,
      or_assoc]

end

theorem modifies_modifyingClauses (s : Settings) (keyHere : Bool) (key : Option KeySpec)
    (c : Column) : ∀ m ∈ modifyingClauses s keyHere key c, m.1.Modifies := by
  unfold modifyingClauses
  simp only [List.forall_mem_append]
  refine ⟨⟨⟨⟨?_, ?_⟩, ?_⟩, ?_⟩, ?_⟩
  · cases c.defaultValue <;> simp [Clause.Modifies]
  · split <;> simp [Clause.Modifies]
  · split <;> simp [Clause.Modifies]
  · split <;> simp [Clause.Modifies]
  · cases key <;> simp [Clause.Modifies]

/-! ## Items -/

/-- The name of a column up to its type, as it is written: between the two there is at least one
blank. -/
def columnHead (s : Settings) (g : Graph) (t : Table) (c : Column) : String :=
  quote s c.title ++ .ofList (List.replicate (nameWidth s t - Text.width (quote s c.title)) ' ') ++
    " " ++ columnType s g c

/-- The names of columns, each up to its type. -/
def columnHeads (s : Settings) (g : Graph) : List String :=
  g.tables.flatMap fun t => t.columns.map (columnHead s g t)

section
variable {p : List Char} (h : Phrase p) (s : Settings) (g : Graph) (t : Table)
include h

/-- **A column** says what its head and the pieces of its clauses say. -/
theorem Phrase.column_iff (promoted : Bool) (key : Option KeySpec) (c : Column) :
    Says p ((Item.column c.title (clauses s g promoted key c)).text s (nameWidth s t)) ↔
      Says p (columnHead s g t c) ∨
        SaysAny p (itemPieces s (.column c.title (clauses s g promoted key c))) := by
  have hmods : ∀ m ∈ (modifyingClauses s (statesKey s g promoted c) (clauseKey s key) c).map (·.1),
      m.Modifies :=
    List.forall_mem_map.2 (modifies_modifyingClauses s _ _ c)
  rw [clauses_eq]
  generalize (modifyingClauses s (statesKey s g promoted c) (clauseKey s key) c).map (·.1) = mods
    at hmods
  obtain ⟨hpieces, htype⟩ : clausePieces s (typeClause s g c (c.isPrimary && !promoted)) =
        [columnType s g c] ∧
      ∀ front, Says p (front ++ (typeClause s g c (c.isPrimary && !promoted)).text s) ↔
        Says p (front ++ columnType s g c) := by
    rw [← typeText_typeClause s g c (c.isPrimary && !promoted)]
    obtain ⟨text, he | he⟩ := typeClause_cases s g c (c.isPrimary && !promoted)
    · rw [he]
      exact ⟨rfl, fun _ => .rfl⟩
    · rw [he]
      refine ⟨rfl, fun front => ?_⟩
      rw [Clause.text, ← String.append_assoc, h.before " PRIMARY KEY AUTOINCREMENT" (by decide)]
      rfl
  have hname (hp : Says p (quote s c.title)) : Says p (columnHead s g t c) :=
    says_left (says_left (says_left hp _) _) _
  have hbase (hp : Says p (columnType s g c)) : Says p (columnHead s g t c) :=
    says_right _ hp
  unfold Item.text itemPieces
  dsimp only
  rw [List.map_cons, h.modifiers_iff s hmods, htype, List.flatMap_cons, hpieces, saysAny_cons,
    saysAny_append, saysAny_cons, or_iff_left saysAny_nil, ← or_assoc, ← or_assoc,
    or_iff_left_of_imp hname, or_iff_left_of_imp hbase]
  rfl

/-- **The items of a table.** -/
theorem Phrase.items_iff (inside : List KeySpec) :
    SaysAny p ((items s g t inside).map (Item.text s (nameWidth s t))) ↔
      SaysAny p (t.columns.map (columnHead s g t)) ∨
        SaysAny p ((items s g t inside).flatMap (itemPieces s)) := by
  have hprimary : ∀ titles width, Says p ((Item.primaryKey titles).text s width) ↔
      SaysAny p (itemPieces s (.primaryKey titles)) := by
    intro titles width
    have hword : ¬Says p "PRIMARY KEY" := fun hp =>
      h.not_empty ((h.before " PRIMARY KEY" (by decide) "").1 (says_right " " hp))
    have htext : (Item.primaryKey titles).text s width =
        "PRIMARY KEY" ++ (" (" ++ (Text.join ", " (titles.map (quote s)) ++ ")")) := by
      unfold Item.text
      apply String.toList_inj.1
      simp
    rw [htext, h.between " (" (by decide), or_iff_right hword, h.before ")" (by decide),
      h.join ", " (by decide)]
    rfl
  have hforeign : ∀ k width, Says p ((Item.foreignKey k).text s width) ↔
      SaysAny p (itemPieces s (.foreignKey k)) := by
    intro k width
    obtain ⟨text, hreferences, htext⟩ := h.references_iff s k
    unfold Item.text
    dsimp only
    rw [hreferences, String.append_assoc, String.append_assoc, h.behind "FOREIGN KEY (" (by decide),
      h.between ") " (by decide), h.behind "REFERENCES " (by decide), htext]
    simp [itemPieces]
  have hothers : ∀ is : List Item, (∀ i ∈ is, ∀ width, Says p (i.text s width) ↔
      SaysAny p (itemPieces s i)) → (SaysAny p (is.map (Item.text s (nameWidth s t))) ↔
        SaysAny p (is.flatMap (itemPieces s))) := by
    intro is his
    rw [saysAny_map, saysAny_flatMap]
    exact exists_congr fun i => and_congr_right fun hi => his i hi _
  have hkeys : ∀ i ∈ (if promotesKey t inside then
      [Item.primaryKey ((primaryColumns t).map (·.title))] else []), ∀ width,
        Says p (i.text s width) ↔ SaysAny p (itemPieces s i) := by
    split
    · exact fun i hi => List.mem_singleton.1 hi ▸ hprimary _
    · exact nofun
  have hforeigns : ∀ i ∈ (if s.dialect = .mysql then inside.map Item.foreignKey else []), ∀ width,
      Says p (i.text s width) ↔ SaysAny p (itemPieces s i) := by
    split
    · exact List.forall_mem_map.2 fun k _ => hforeign k
    · exact nofun
  unfold items
  dsimp only
  rw [List.map_append, List.map_append, List.flatMap_append, List.flatMap_append, saysAny_append,
    saysAny_append, saysAny_append, saysAny_append, hothers _ hkeys, hothers _ hforeigns,
    List.map_map, List.flatMap_map, saysAny_map, saysAny_map]
  simp only [Function.comp_apply, saysAny_flatMap, h.column_iff s g t, and_or_left, exists_or, or_assoc]

theorem Phrase.itemLines_iff (texts : List String) :
    Says p (itemLines texts) ↔ SaysAny p texts := by
  fun_induction itemLines texts with
  | case1 => exact iff_of_false h.not_empty saysAny_nil
  | case2 item =>
    rw [h.before "\n" (by decide), h.behind "    " (by decide)]
    simp
  | case3 item next rest ih =>
    rw [String.append_assoc, String.append_assoc, h.behind "    " (by decide),
      h.between ",\n" (by decide), ih, saysAny_cons item]

/-- **A table** says what its name, its items and its indexes say. -/
theorem Phrase.table_iff :
    Says p (tableText s g (keysOf g) t) ↔
      SaysAny p (t.columns.map (columnHead s g t)) ∨
        SaysAny p (quote s t.name ::
          (items s g t (insideKeys s (keysOf g) t)).flatMap (itemPieces s) ++
            (indexedColumns t).flatMap (indexPieces s t)) := by
  have htext : tableText s g (keysOf g) t = "CREATE TABLE IF NOT EXISTS " ++ (quote s t.name ++
      (" (\n" ++ (itemLines ((items s g t (insideKeys s (keysOf g) t)).map
        (Item.text s (nameWidth s t))) ++ (");\n" ++
          (Text.join "" ((indexedColumns t).map (indexText s t)) ++ "\n"))))) := by
    unfold tableText insideKeys
    simp only [String.append_assoc]
  have hindexes : ∀ text ∈ (indexedColumns t).map (indexText s t), EndsLine text := by
    intro text ht
    obtain ⟨c, -, rfl⟩ := List.mem_map.1 ht
    exact EndsLine.append ⟨");", rfl⟩ _
  rw [htext, h.behind "CREATE TABLE IF NOT EXISTS " (by decide), h.between " (\n" (by decide),
    h.between ");\n" (by decide), h.before "\n" (by decide), h.itemLines_iff, h.lines hindexes,
    h.items_iff, saysAny_map (indexText s t)]
  simp only [h.index_iff s t, ← saysAny_flatMap, saysAny_cons, saysAny_append, List.cons_append,
    or_assoc, or_left_comm]

/-- **The enumerations.** -/
theorem Phrase.enumSection_iff : Says p (enumSection s g) ↔
    SaysAny p (if s.dialect = .postgresql then g.enums.flatMap (enumPieces s) else []) := by
  have hlines : ∀ text ∈ g.enums.map (enumText s), EndsLine text := by
    intro text ht
    obtain ⟨e, -, rfl⟩ := List.mem_map.1 ht
    exact EndsLine.append ⟨");", rfl⟩ _
  have htexts : Says p (Text.join "" (g.enums.map (enumText s))) ↔
      SaysAny p (g.enums.flatMap (enumPieces s)) := by
    rw [h.lines hlines, saysAny_map, saysAny_flatMap]
    simp only [h.enum_iff s]
  unfold enumSection
  by_cases hs : s.dialect = .postgresql
  · rw [if_pos hs, ← htexts]
    split
    · exact h.before "\n" (by decide) _
    · rename_i hempty
      have hnil : g.enums = [] := by simpa [hs] using hempty
      rw [hnil]
      rfl
  · rw [if_neg hs, if_neg fun hall => hs hall.1]
    exact iff_of_false h.not_empty saysAny_nil

/-- **The keys that are added.** -/
theorem Phrase.keySection_iff : Says p (keySection s (keysOf g)) ↔
    SaysAny p (if inlinesKeys s then [] else
      (constraintNames [] (keysOf g)).flatMap fun nk => addedKeyPieces s nk.1 nk.2) := by
  have hlines : ∀ text ∈ (constraintNames [] (keysOf g)).map (fun nk => addKeyText s nk.1 nk.2),
      EndsLine text := by
    intro text ht
    obtain ⟨nk, -, rfl⟩ := List.mem_map.1 ht
    exact EndsLine.append ⟨";", rfl⟩ _
  have htexts : Says p (Text.join "" ((constraintNames [] (keysOf g)).map
      fun nk => addKeyText s nk.1 nk.2)) ↔
        SaysAny p ((constraintNames [] (keysOf g)).flatMap fun nk => addedKeyPieces s nk.1 nk.2) := by
    rw [h.lines hlines, saysAny_map, saysAny_flatMap]
    simp only [h.addedKey_iff s]
  unfold keySection
  cases inlinesKeys s with
  | true => exact iff_of_false h.not_empty saysAny_nil
  | false =>
    rw [if_neg Bool.false_ne_true, ← htexts, Bool.false_or]
    cases keysOf g with
    | nil => rfl
    | cons k keys => exact h.behind "-- Foreign Key Constraints\n" (by decide) _

end

/-- **A text says what its time and its pieces say.** -/
theorem Phrase.script_iff {p : List Char} (h : Phrase p) {s : Settings}
    (hheader : Apart p ("-- Generated by schemasync\n-- Dialect: " ++ s.dialect.name ++
      "\n-- Generated at: ")) (time : String) (g : Graph) :
    Says p (script s time g) ↔ SaysAny p (time :: columnHeads s g ++ pieces s g) := by
  have hlines : ∀ text ∈ g.tables.map (tableText s g (keysOf g)), EndsLine text :=
    List.forall_mem_map.2 fun t _ => ⟨_, rfl⟩
  have htime : Says p (header s time) ↔ Says p time := by
    have htext : header s time = ("-- Generated by schemasync\n-- Dialect: " ++ s.dialect.name ++
        "\n-- Generated at: ") ++ (time ++ "\n" ++ "\n") := by
      unfold header
      simp only [String.append_assoc]
      rfl
    rw [htext]
    constructor
    · intro hp
      have happart := hheader [] (small (time ++ "\n" ++ "\n").toList)
      rw [List.nil_append, ← small_string_append] at happart
      have hrest := (happart hp).resolve_left h.not_empty
      exact (h.before "\n" (by decide) _).1 ((h.before "\n" (by decide) _).1 hrest)
    · exact fun hp => says_right _ (says_left (says_left hp _) _)
  have hbreaks : EndsLine "\n\n" := ⟨"\n", rfl⟩
  have hends : EndsLine (header s time) := hbreaks.append _
  have henums : WholeLines (enumSection s g) := by
    unfold enumSection
    split
    · exact .inr ⟨_, rfl⟩
    · exact .inl rfl
  have htables : Says p (Text.join "" (g.tables.map (tableText s g (keysOf g)))) ↔
      SaysAny p (columnHeads s g) ∨ SaysAny p (g.tables.flatMap fun t => quote s t.name ::
        (items s g t (insideKeys s (keysOf g) t)).flatMap (itemPieces s) ++
          (indexedColumns t).flatMap (indexPieces s t)) := by
    unfold columnHeads
    rw [h.lines hlines, saysAny_map, saysAny_flatMap, saysAny_flatMap]
    simp only [h.table_iff s g, and_or_left, exists_or]
  unfold script pieces
  dsimp only
  rw [String.append_assoc, String.append_assoc, h.append_of_wholeLines (.inr hends), htime,
    h.append_of_wholeLines henums, h.enumSection_iff, h.append_of_wholeLines (wholeLines_join hlines),
    htables, h.keySection_iff]
  simp only [saysAny_cons, saysAny_append, List.cons_append, or_assoc, or_left_comm]

/-! ## Detection -/

/-- What headers of other dialects say, where it counts before what the own header says. -/
def rivals : Dialect → List String
  | .postgresql => ["-- dialect: mysql", "mysql dump", "-- dialect: sqlite"]
  | .mysql => []
  | .sqlite => ["-- dialect: mysql", "mysql dump"]

theorem phrase_of_rival {d : Dialect} {phrase : String} (h : phrase ∈ rivals d) :
    Phrase phrase.toList ∧ ('ς' ∉ phrase.toList ∧ 'σ' ∉ phrase.toList) ∧
      Apart phrase.toList ("-- Generated by schemasync\n-- Dialect: " ++ d.name ++
        "\n-- Generated at: ") := by
  have hphrases : ∀ phrase ∈ rivals .postgresql, phrase.toList ≠ [] ∧
      (∀ w ∈ scriptMarks, isApart phrase.toList (small w.toList) = true) ∧
        ('ς' ∉ phrase.toList ∧ 'σ' ∉ phrase.toList) := by
    decide +kernel
  have hsub : rivals d ⊆ rivals .postgresql := by
    cases d <;> decide
  have hheader : ∀ phrase ∈ rivals d, isApart phrase.toList
      (small ("-- Generated by schemasync\n-- Dialect: " ++ d.name ++
        "\n-- Generated at: ").toList) = true := by
    cases d <;> decide +kernel
  obtain ⟨hne, hmarks, hsigma⟩ := hphrases phrase (hsub h)
  exact ⟨⟨hne, fun w hw => apart_of_isApart (hmarks w hw)⟩, hsigma,
    apart_of_isApart (hheader phrase h)⟩

/-- A written text is taken for one of its dialect just if it says nothing that headers of other
dialects say. -/
theorem detect_script_iff_rivals (s : Settings) (time : String) (g : Graph) :
    Dialect.detect (script s time g) = s.dialect ↔ ∀ phrase ∈ rivals s.dialect,
      holds phrase.toList (lowerFrom [] (script s time g).toList) = false := by
  have hheader := holds_dialect_script s time g
  unfold Dialect.detect Dialect.ofChars
  dsimp only
  generalize lowerFrom [] (script s time g).toList = lowered at *
  cases hs : s.dialect <;> rw [hs] at hheader
  · have hname : "-- dialect: " ++ Dialect.name .postgresql = "-- dialect: postgresql" := by decide
    rw [hname] at hheader
    simp only [Dialect.signs, List.find?_cons, Dialect.Sign.isIn, hheader, rivals,
      List.forall_mem_cons]
    cases holds "-- dialect: mysql".toList lowered <;> cases holds "mysql dump".toList lowered <;>
      cases holds "-- dialect: sqlite".toList lowered <;> simp
  · have hname : "-- dialect: " ++ Dialect.name .mysql = "-- dialect: mysql" := by decide
    rw [hname] at hheader
    simp only [Dialect.signs, List.find?_cons, Dialect.Sign.isIn, hheader, rivals]
    simp
  · have hname : "-- dialect: " ++ Dialect.name .sqlite = "-- dialect: sqlite" := by decide
    rw [hname] at hheader
    simp only [Dialect.signs, List.find?_cons, Dialect.Sign.isIn, hheader, rivals,
      List.forall_mem_cons]
    cases holds "-- dialect: mysql".toList lowered <;> cases holds "mysql dump".toList lowered <;>
      simp

/-- **When a text is read as what it was written as**: its dialect is told from it just if no name,
literal, type or action that is written, no bare name up to the type behind it, and not the time
says what the header of another dialect would say, in letters of any case. -/
theorem detect_script_iff (s : Settings) (time : String) (g : Graph) :
    Dialect.detect (script s time g) = s.dialect ↔
      ∀ phrase ∈ rivals s.dialect, ∀ text ∈ time :: columnHeads s g ++ pieces s g,
        holds phrase.toList (lower text).toList = false := by
  rw [detect_script_iff_rivals]
  refine forall_congr' fun phrase => forall_congr' fun hm => ?_
  obtain ⟨hphrase, hsigma, hheader⟩ := phrase_of_rival hm
  have hsays : ∀ text : String, holds phrase.toList (lower text).toList = true ↔
      Says phrase.toList text := by
    intro text
    rw [lower, String.toList_ofList, holds_iff_small hsigma, Says]
  have hwhole := hphrase.script_iff hheader time g
  rw [← Bool.not_eq_true, holds_iff_small hsigma]
  change ¬Says phrase.toList (script s time g) ↔ _
  rw [hwhole, SaysAny]
  simp only [← hsays, not_exists, not_and, Bool.not_eq_true]

/-- A name is enough: a text for PostgreSQL with a table named like the header of a dump is taken for
one of MySQL, where a backslash in a default is an escape. -/
theorem detect_script_dump : Dialect.detect (script { dialect := .postgresql } "T"
    { tables := [{ id := "t1", name := "mysql dump"
                   columns := [{ title := "path", dataType := "text"
                                 defaultValue := some "a\\b" }] }] }) = .mysql := by
  decide +kernel

end DdlGraph.Ddl
